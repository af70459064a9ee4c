import SystemDynamics.Json.Reader
import SystemDynamics.Proofs.Json.Tree
import SystemDynamics.Proofs.Outcome

namespace SystemDynamics.Json

variable {α β : Type}

@[simp] theorem refuse_eq_ok {why : Refusal} {a : α} : refuse why = .ok a ↔ False := by
  simp [refuse]

@[simp] theorem wellFormed_eq_ok {x : Option α} {a : α} : wellFormed x = .ok a ↔ x = some a := by
  cases x <;> simp [wellFormed]

@[simp] theorem refuseFound_eq_ok {expected : String} {t : Text} {a : α} :
    refuseFound expected t = .ok a ↔ False := by
  simp [refuseFound, Except.bind_eq_ok]

namespace Reader

/-- What is read from a value in whatever order its fields are written, unless a name comes
twice. -/
def Takes (r : Reader α) (v : Value) (a : α) : Prop :=
  v.Distinct ∧ r.ofValue v.sorted = .ok a

/-- Both ways of reading agree where lists and objects nest at most so deep. -/
def Coherent (depth : Nat) (r : Reader α) : Prop :=
  ∀ ⦃t rest a⦄, r.ofText t = .ok (a, rest) ↔ ∃ v, Spells depth t v rest ∧ r.Takes v a

theorem Takes.unique {r : Reader α} {v : Value} {a a' : α} (h : r.Takes v a) (h' : r.Takes v a') :
    a = a' :=
  Except.ok.inj (h.2.symm.trans h'.2)

theorem text_coherent (depth : Nat) : text.Coherent depth := by
  intro t rest s
  simp only [text]
  constructor
  · intro h
    split at h
    case h_1 t' ht =>
      rw [wellFormed_eq_ok] at h
      exact ⟨.text s, spells_text_iff.mpr ⟨t', ht, h⟩, by simp [Takes]⟩
    case h_2 => simp at h
  · rintro ⟨v, hv, hs⟩
    cases v with
    | text s' =>
      obtain ⟨t', ht, hread⟩ := spells_text_iff.mp hv
      obtain rfl := by simpa [Takes] using hs
      simp [ht, hread]
    | _ => simp [Takes] at hs

theorem startsNumber_of_readNumber {t rest : Text} {n : Number}
    (h : readNumber t = some (n, rest)) : startsNumber t = true := by
  obtain ⟨c, t', rfl, hc⟩ := head_of_readNumber h
  simpa [startsNumber] using hc

theorem numeric_coherent (expected : String) (take : Number → Except Failure α) (depth : Nat) :
    (numeric expected take).Coherent depth := by
  intro t rest a
  simp only [numeric]
  constructor
  · intro h
    split at h
    case isTrue =>
      obtain ⟨⟨n, rest'⟩, hread, h⟩ := Except.bind_eq_ok.mp h
      obtain ⟨a', ha, h⟩ := Except.bind_eq_ok.mp h
      obtain ⟨rfl, rfl⟩ := by simpa [Except.pure_eq_ok] using h
      rw [wellFormed_eq_ok] at hread
      exact ⟨.number n, spells_number_iff.mpr hread, by simpa [Takes] using ha⟩
    case isFalse => simp at h
  · rintro ⟨v, hv, ha⟩
    cases v with
    | number n =>
      rw [spells_number_iff] at hv
      have ha : take n = .ok a := by simpa [Takes] using ha
      simp [startsNumber_of_readNumber hv, hv, ha, wellFormed, Except.ok_bind, pure, Except.pure]
    | _ => simp [Takes] at ha

theorem float_coherent (depth : Nat) : float.Coherent depth :=
  numeric_coherent _ _ depth

theorem optional_ofValue (r : Reader α) {v : Value} (hv : v ≠ .null) :
    r.optional.ofValue v = (r.ofValue v).map some := by
  cases v with
  | null => exact absurd rfl hv
  | _ => rfl

theorem optional_coherent {r : Reader α} {depth : Nat} (hr : r.Coherent depth) :
    r.optional.Coherent depth := by
  have hsorted : ∀ {v : Value}, v ≠ .null → v.sorted ≠ .null :=
    fun hv ↦ mt Value.sorted_eq_null.mp hv
  intro t rest a
  simp only [optional]
  constructor
  · intro h
    split at h
    case h_1 t' ht =>
      simp only [Except.map_eq_ok, wellFormed_eq_ok, Prod.mk.injEq] at h
      obtain ⟨_, hword, rfl, rfl⟩ := h
      exact ⟨.null, spells_null_iff.mpr ⟨t', ht, hword⟩, by simp [Takes]⟩
    case h_2 ht =>
      simp only [Except.map_eq_ok, Prod.mk.injEq, Prod.exists] at h
      obtain ⟨a, _, ha, rfl, rfl⟩ := h
      obtain ⟨v, hv, hdistinct, ha⟩ := hr.mp ha
      rw [(isItem_spells depth).blank] at hv
      have hne : v ≠ .null := by
        rintro rfl
        obtain ⟨t', ht', -⟩ := spells_null_iff.mp hv
        exact ht t' ht'
      refine ⟨v, hv, hdistinct, ?_⟩
      exact (optional_ofValue r (hsorted hne)).trans (Except.map_eq_ok.mpr ⟨a, ha, rfl⟩)
  · rintro ⟨v, hv, hdistinct, ha⟩
    by_cases hne : v = .null
    · subst hne
      obtain ⟨t', ht, hword⟩ := spells_null_iff.mp hv
      obtain rfl := by simpa using ha
      simp [ht, hword, wellFormed, Except.map]
    · rw [← optional, optional_ofValue r (hsorted hne)] at ha
      obtain ⟨a, ha', rfl⟩ := Except.map_eq_ok.mp ha
      have hread := hr.mpr ⟨v, (isItem_spells depth).blank.mpr hv, hdistinct, ha'⟩
      split
      case h_1 t' ht => exact absurd ((spells_null ht).mp hv).1 hne
      case h_2 => exact Except.map_eq_ok.mpr ⟨_, hread, rfl⟩

theorem nextItem_eq_none {isFirst : Bool} {t : Text} :
    nextItem isFirst t = .ok none ↔ ∃ rest, skipBlank t = ']' :: rest := by
  rw [nextItem]
  split
  case h_1 ht => simp [ht]
  case h_2 rest ht => simp [ht]
  case h_3 c rest hc ht =>
    have hne : ¬ ∃ rest, skipBlank t = ']' :: rest := by simpa [ht] using hc
    rw [iff_false_intro hne, iff_false]
    cases isFirst with
    | true => simp
    | false =>
      simp only [Bool.false_eq_true, if_false]
      split
      case isTrue => split <;> simp
      case isFalse => simp

theorem nextItem_eq_some {isFirst : Bool} {t t' : Text} :
    nextItem isFirst t = .ok (some t') ↔ ∃ t₀ c u, Reaches isFirst t t₀ ∧
      skipBlank t₀ = c :: u ∧ c ≠ ']' ∧ c :: u = t' := by
  rw [nextItem]
  cases isFirst with
  | true =>
    simp only [Reaches, if_true, exists_and_left, exists_eq_left']
    split
    case h_1 ht => simp [ht]
    case h_2 rest ht => simp [ht, and_assoc]
    case h_3 c rest hc ht => simpa [ht, and_assoc] using fun _ ↦ hc
  | false =>
    simp only [Reaches, Bool.false_eq_true, if_false]
    split
    case h_1 ht => simp [ht]
    case h_2 rest ht => simp [ht]
    case h_3 c rest hc ht =>
      split
      case isFalse hcomma => simp [ht, hcomma]
      case isTrue hcomma =>
        subst hcomma
        simp only [ht, List.cons.injEq, true_and, exists_and_left, exists_eq_left']
        split
        case h_1 hrest => simp [hrest]
        case h_2 hrest => simp [hrest, and_assoc]
        case h_3 hnil hlist =>
          obtain ⟨c, u, hrest⟩ := List.exists_cons_of_ne_nil hnil
          have hc : c ≠ ']' := fun h ↦ hlist u (h ▸ hrest)
          simp [hrest, and_assoc, hc]

theorem closeList_eq_ok {t rest : Text} : closeList t = .ok rest ↔ skipBlank t = ']' :: rest := by
  rw [closeList]
  split
  case h_1 rest' ht => simp [ht]
  case h_2 ht =>
    refine ⟨nofun, fun h ↦ absurd h (ht rest)⟩

theorem itemsOfText_succ_eq_ok {r : Reader α} {fuel : Nat} {isFirst : Bool} {t rest : Text}
    {as : List α} : itemsOfText r (fuel + 1) isFirst t = .ok (as, rest) ↔
      (as = [] ∧ skipBlank t = ']' :: rest) ∨ ∃ a as' t₀ t₁ c u, as = a :: as' ∧
        Reaches isFirst t t₀ ∧ (skipBlank t₀ = c :: u ∧ c ≠ ']') ∧
          r.ofText (skipBlank t₀) = .ok (a, t₁) ∧
            itemsOfText r fuel false t₁ = .ok (as', rest) := by
  rw [itemsOfText]
  constructor
  · intro h
    obtain ⟨_ | t', hnext, h⟩ := Except.bind_eq_ok.mp h
    case none =>
      obtain ⟨rest', hclose, h⟩ := Except.bind_eq_ok.mp h
      obtain ⟨rfl, rfl⟩ := by simpa [Except.pure_eq_ok] using h
      exact .inl ⟨rfl, closeList_eq_ok.mp hclose⟩
    case some =>
      obtain ⟨t₀, c, u, hreach, ht₀, hc, rfl⟩ := nextItem_eq_some.mp hnext
      obtain ⟨⟨a, t₁⟩, ha, h⟩ := Except.bind_eq_ok.mp h
      obtain ⟨⟨as', _⟩, has, h⟩ := Except.bind_eq_ok.mp h
      obtain ⟨rfl, rfl⟩ := by simpa [Except.pure_eq_ok] using h
      exact .inr ⟨a, as', t₀, t₁, c, u, rfl, hreach, ⟨ht₀, hc⟩, ht₀.symm ▸ ha, has⟩
  · rintro (⟨rfl, ht⟩ | ⟨a, as', t₀, t₁, c, u, rfl, hreach, ⟨ht₀, hc⟩, ha, has⟩)
    · rw [nextItem_eq_none.mpr ⟨rest, ht⟩, Except.ok_bind]
      simp only [closeList_eq_ok.mpr ht, Except.ok_bind]
      rfl
    · rw [nextItem_eq_some.mpr ⟨t₀, c, u, hreach, ht₀, hc, rfl⟩, Except.ok_bind]
      simp only [← ht₀, ha, has, Except.ok_bind]
      rfl

theorem itemsOfText_eq_ok {r : Reader α} {depth : Nat} (hr : r.Coherent depth) {fuel : Nat}
    {isFirst : Bool} {t rest : Text} (hfuel : t.length < fuel) {as : List α} :
    itemsOfText r fuel isFirst t = .ok (as, rest) ↔
      Listed (fun t a rest ↦ ∃ v, Spells depth t v rest ∧ r.Takes v a) ']' isFirst t as rest := by
  have hS := (isItem_spells depth).exists (P := r.Takes) Takes.unique
  induction fuel generalizing isFirst t as with
  | zero => exact absurd hfuel (Nat.not_lt_zero _)
  | succ fuel ih =>
    have hlater : ∀ {t₀ t₁ a}, Reaches isFirst t t₀ → (∃ v, Spells depth t₀ v t₁ ∧ r.Takes v a) →
        t₁.length < fuel :=
      fun hreach ha ↦ Nat.lt_of_lt_of_le (hS.length ha)
        (hreach.length.trans (Nat.le_of_lt_succ hfuel))
    rw [itemsOfText_succ_eq_ok]
    cases as with
    | nil => simp [listed_nil]
    | cons a as =>
      rw [listed_cons]
      constructor
      · rintro (⟨h, -⟩ | ⟨_, _, t₀, t₁, c, u, h, hreach, -, ha, has⟩)
        · exact absurd h (List.cons_ne_nil _ _)
        · obtain ⟨rfl, rfl⟩ := List.cons.inj h
          have ha := hS.blank.mp (hr.mp ha)
          exact ⟨t₀, t₁, hreach, ha, (ih (hlater hreach ha)).mp has⟩
      · rintro ⟨t₀, t₁, hreach, ha, has⟩
        obtain ⟨c, u, ht₀, hc, -⟩ := hS.head ha
        exact .inr ⟨a, as, t₀, t₁, c, u, rfl, hreach, ⟨ht₀, hc⟩, hr.mpr (hS.blank.mpr ha),
          (ih (hlater hreach ha)).mpr has⟩

theorem takes_list {r : Reader α} {vs : List Value} {as : List α} :
    r.list.Takes (.list vs) as ↔ List.Forall₂ r.Takes vs as := by
  simp only [Takes, list, Value.distinct_list, Value.sorted_list, Except.mapM_eq_ok,
    List.forall₂_map_left_iff]
  exact (List.forall₂_and_left ..).symm

theorem list_coherent {r : Reader α} {depth : Nat} (hr : r.Coherent depth) :
    r.list.Coherent (depth + 1) := by
  intro t rest as
  constructor
  · intro h
    simp only [list] at h
    split at h
    case h_1 t' ht =>
      rw [itemsOfText_eq_ok hr (Nat.lt_succ_self _), listed_exists] at h
      obtain ⟨vs, hvs, has⟩ := h
      exact ⟨.list vs, ⟨t', ht, hvs⟩, takes_list.mpr has⟩
    case h_2 => simp at h
  · rintro ⟨v, hv, has⟩
    cases v with
    | list vs =>
      obtain ⟨t', ht, hvs⟩ := hv
      simp only [list, ht]
      rw [itemsOfText_eq_ok hr (Nat.lt_succ_self _), listed_exists]
      exact ⟨vs, hvs, takes_list.mp has⟩
    | _ => simp [Takes, list] at has

theorem skipColon_eq_ok {t rest : Text} : skipColon t = .ok rest ↔ skipBlank t = ':' :: rest := by
  rw [skipColon]
  split
  case h_1 rest' ht => simp [ht]
  case h_2 ht => exact ⟨nofun, fun h ↦ absurd h (ht rest)⟩

theorem closeObject_eq_ok {t rest : Text} :
    closeObject t = .ok rest ↔ skipBlank t = '\x7d' :: rest := by
  rw [closeObject]
  split
  case h_1 rest' ht => simp [ht]
  case h_2 ht => exact ⟨nofun, fun h ↦ absurd h (ht rest)⟩

section

variable {kind : String} {variants : List (String × α)}

theorem choice.nameOf_eq_ok {t rest : Text} {name : String} : choice.nameOf t = .ok (name, rest) ↔
    ∃ t', skipBlank t = '"' :: t' ∧ readString t' = some (name, rest) := by
  rw [choice.nameOf]
  split
  case h_1 t' ht => simp [ht]
  case h_2 ht =>
    rw [refuseFound_eq_ok, false_iff]
    rintro ⟨t', ht', -⟩
    exact ht t' ht'

theorem choice.unit_eq_ok {t rest : Text} : choice.unit t = .ok rest ↔
    ∃ t', t = 'n' :: t' ∧ skipWord ['u', 'l', 'l'] t' = some rest := by
  rw [choice.unit.eq_def]
  split
  case h_1 => simp
  case h_2 ht =>
    rw [refuseFound_eq_ok, false_iff]
    rintro ⟨t', ht', -⟩
    exact ht t' ht'

theorem sorted_eq_singleton {fields : List (String × Value)} (h : (fields.map (·.1)).Nodup)
    {e : String × Value} : (Value.object fields).sorted = .object [e] ↔
      ∃ v : Value, fields = [(e.1, v)] ∧ v.sorted = e.2 := by
  rw [Value.sorted_object, Value.object.injEq]
  constructor
  · intro he
    have hperm := sorted_fields_perm h
    rw [he, List.singleton_perm, eq_comm, List.map_eq_singleton_iff] at hperm
    obtain ⟨⟨name, v⟩, rfl, rfl⟩ := hperm
    exact ⟨v, rfl, rfl⟩
  · rintro ⟨v, rfl, hv⟩
    rw [List.map_singleton, hv]
    rfl

theorem choice_object_eq_ok {fields : List (String × Value)} {a : α} :
    (choice kind variants).ofValue (.object fields) = .ok a ↔
      ∃ name, fields = [(name, .null)] ∧ choice.pick variants name = .ok a := by
  match fields with
  | [] => simp [choice]
  | [(name, v)] =>
    simp only [choice, Except.bind_eq_ok]
    cases v <;> simp [Except.pure_eq_ok]
  | _ :: _ :: _ => simp [choice]

theorem choice_coherent (depth : Nat) : (choice kind variants).Coherent (depth + 1) := by
  intro t rest a
  constructor
  · intro h
    simp only [choice] at h
    split at h
    case h_1 t' ht =>
      obtain ⟨⟨name, _⟩, hname, h⟩ := Except.bind_eq_ok.mp h
      obtain ⟨_, ha, h⟩ := Except.bind_eq_ok.mp h
      obtain ⟨rfl, rfl⟩ := by simpa [Except.pure_eq_ok] using h
      exact ⟨.text name, spells_text_iff.mpr ⟨t', ht, wellFormed_eq_ok.mp hname⟩,
        by simpa [Takes, choice] using ha⟩
    case h_2 t' ht =>
      obtain ⟨⟨name, t₁⟩, hname, h⟩ := Except.bind_eq_ok.mp h
      obtain ⟨_, ha, h⟩ := Except.bind_eq_ok.mp h
      obtain ⟨t₂, hcolon, h⟩ := Except.bind_eq_ok.mp h
      obtain ⟨t₃, hnull, h⟩ := Except.bind_eq_ok.mp h
      obtain ⟨_, hclose, h⟩ := Except.bind_eq_ok.mp h
      obtain ⟨rfl, rfl⟩ := by simpa [Except.pure_eq_ok] using h
      obtain ⟨u, hu, hname⟩ := choice.nameOf_eq_ok.mp hname
      rw [skipColon_eq_ok] at hcolon
      rw [choice.unit_eq_ok] at hnull
      rw [closeObject_eq_ok] at hclose
      refine ⟨.object [(name, .null)], ⟨t', ht, .item rfl ?_ (.done hclose)⟩, ?_, ?_⟩
      · exact ⟨u, t₁, t₂, hu, hname, hcolon, spells_null_iff.mpr hnull⟩
      · simp
      · rw [(sorted_eq_singleton (e := (name, .null)) (by simp)).mpr ⟨.null, rfl, Value.sorted_null⟩]
        exact choice_object_eq_ok.mpr ⟨name, rfl, ha⟩
    case h_3 => simp at h
  · rintro ⟨v, hv, hdistinct, ha⟩
    cases v with
    | text name =>
      obtain ⟨t', ht, hname⟩ := spells_text_iff.mp hv
      have ha : choice.pick variants name = .ok a := by simpa [choice] using ha
      simp [choice, ht, hname, ha, wellFormed, Except.ok_bind, pure, Except.pure]
    | object fields =>
      obtain ⟨t', ht, hfields⟩ := hv
      rw [Value.sorted_object] at ha
      obtain ⟨name, he, hpick⟩ := choice_object_eq_ok.mp ha
      have hsorted := Value.sorted_object.trans (congrArg Value.object he)
      obtain ⟨v, rfl, hv⟩ := (sorted_eq_singleton (Value.distinct_object.mp hdistinct).1).mp hsorted
      obtain rfl := Value.sorted_eq_null.mp hv
      obtain ⟨_, t₃, rfl, ⟨u, t₁, t₂, hu, hname, hcolon, hnull⟩, hclose⟩ := listed_cons.mp hfields
      simp only [choice, ht, choice.nameOf_eq_ok.mpr ⟨u, hu, hname⟩, hpick,
        skipColon_eq_ok.mpr hcolon, choice.unit_eq_ok.mpr (spells_null_iff.mp hnull),
        closeObject_eq_ok.mpr (listed_nil.mp hclose), Except.ok_bind]
      rfl
    | _ => simp [choice] at ha

end

theorem nextName_eq_none {isFirst : Bool} {t : Text} :
    nextName isFirst t = .ok none ↔ ∃ rest, skipBlank t = '\x7d' :: rest := by
  rw [nextName]
  simp only
  split
  case h_1 ht => simp [ht]
  case h_2 rest ht => simp [ht]
  case h_3 c rest hc ht =>
    have hne : ¬ ∃ rest, skipBlank t = '\x7d' :: rest := by simpa [ht] using hc
    rw [iff_false_intro hne, iff_false]
    cases isFirst with
    | true =>
      simp only [if_true]
      split <;> simp [Except.map_eq_ok]
    | false =>
      simp only [Bool.false_eq_true, if_false]
      split
      case isTrue => split <;> simp [Except.map_eq_ok]
      case isFalse => simp

theorem nextName_eq_some {isFirst : Bool} {t rest : Text} {name : String} :
    nextName isFirst t = .ok (some (name, rest)) ↔ ∃ t₀ t₁, Reaches isFirst t t₀ ∧
      skipBlank t₀ = '"' :: t₁ ∧ readString t₁ = some (name, rest) := by
  rw [nextName]
  simp only
  cases isFirst with
  | true =>
    simp only [Reaches, if_true, exists_and_left, exists_eq_left']
    split
    case h_1 ht => simp [ht]
    case h_2 rest ht => simp [ht]
    case h_3 c rest hc ht =>
      split
      case h_1 h => simp [ht, h, Except.map_eq_ok]
      case h_2 hquote =>
        have hne : ∀ u, skipBlank t ≠ '"' :: u := fun u h ↦ hquote u (ht.symm.trans h)
        simp [hne]
  | false =>
    simp only [Reaches, Bool.false_eq_true, if_false, exists_and_left]
    split
    case h_1 ht => simp [ht]
    case h_2 rest ht => simp [ht]
    case h_3 c rest hc ht =>
      split
      case isFalse hcomma => simp [ht, hcomma]
      case isTrue hcomma =>
        subst hcomma
        simp only [ht, List.cons.injEq, true_and, exists_eq_left']
        split
        case h_1 h => simp [h, Except.map_eq_ok]
        case h_2 hquote =>
          have hne : ∀ u, skipBlank rest ≠ '"' :: u := fun u h ↦ hquote u h
          simp [hne]

end Reader

end SystemDynamics.Json
