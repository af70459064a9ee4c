import Mathlib.Data.List.Forall2

namespace Except

variable {ε ε' α β : Type}

theorem ok_bind (a : α) (f : α → Except ε β) : (.ok a >>= f) = f a := rfl

theorem bind_eq_ok {x : Except ε α} {f : α → Except ε β} {b : β} :
    (x >>= f) = .ok b ↔ ∃ a, x = .ok a ∧ f a = .ok b := by
  cases x <;> simp [bind, Except.bind]

theorem bind_eq_error {x : Except ε α} {f : α → Except ε β} {e : ε} :
    (x >>= f) = .error e ↔ x = .error e ∨ ∃ a, x = .ok a ∧ f a = .error e := by
  cases x <;> simp [bind, Except.bind]

theorem pure_eq_ok {a b : α} : (pure a : Except ε α) = .ok b ↔ a = b := by
  simp [pure, Except.pure]

theorem mapError_eq_ok {f : ε → ε'} {x : Except ε α} {a : α} :
    x.mapError f = .ok a ↔ x = .ok a := by
  cases x <;> simp [Except.mapError]

theorem mapError_eq_error {f : ε → ε'} {x : Except ε α} {e : ε'} :
    x.mapError f = .error e ↔ ∃ e', x = .error e' ∧ e = f e' := by
  cases x <;> simp [Except.mapError, eq_comm]

theorem mapError_bind (x : Except ε α) (g : α → Except ε β) (f : ε → ε') :
    (x >>= g).mapError f = x.mapError f >>= fun a ↦ (g a).mapError f := by
  cases x <;> rfl

theorem map_eq_ok {f : α → β} {x : Except ε α} {b : β} :
    x.map f = .ok b ↔ ∃ a, x = .ok a ∧ f a = b := by
  cases x <;> simp [Except.map]

theorem map_eq_error {f : α → β} {x : Except ε α} {e : ε} :
    x.map f = .error e ↔ x = .error e := by
  cases x <;> simp [Except.map]

theorem exists_map_eq_ok_iff {f : α → β} {x : Except ε α} :
    (∃ b, x.map f = .ok b) ↔ ∃ a, x = .ok a := by
  cases x <;> simp [Except.map]

theorem toBool_eq_true {x : Except ε α} : x.toBool = true ↔ ∃ a, x = .ok a := by
  cases x <;> simp [Except.toBool]

theorem toBool_eq_false {x : Except ε α} : x.toBool = false ↔ ∃ e, x = .error e := by
  cases x <;> simp [Except.toBool]

theorem toOption_eq_some {x : Except ε α} {a : α} : x.toOption = some a ↔ x = .ok a := by
  cases x <;> simp [Except.toOption]

theorem toOption_mapError (f : ε → ε') (x : Except ε α) :
    (x.mapError f).toOption = x.toOption := by
  cases x <;> rfl

def error? : Except ε α → Option ε
  | .ok _ => none
  | .error e => some e

theorem error?_eq_some {x : Except ε α} {e : ε} : x.error? = some e ↔ x = .error e := by
  cases x <;> simp [error?]

/-- A computation that succeeds just when another does, and then with a related result. -/
def Agrees (R : α → β → Prop) (x : Except ε α) : Option β → Prop
  | some b => ∃ a, x = .ok a ∧ R a b
  | none => ∃ e, x = .error e

theorem Agrees.bind {α' β' : Type} {R : α → β → Prop} {S : α' → β' → Prop} {x : Except ε α}
    {y : Option β} {f : α → Except ε α'} {g : β → Option β'} (h : Agrees R x y)
    (hf : ∀ a b, R a b → Agrees S (f a) (g b)) : Agrees S (x >>= f) (y >>= g) := by
  cases y with
  | none =>
    obtain ⟨e, rfl⟩ := h
    exact ⟨e, rfl⟩
  | some b =>
    obtain ⟨a, rfl, hab⟩ := h
    exact hf a b hab

theorem Agrees.mono {R S : α → β → Prop} {x : Except ε α} {y : Option β} (h : Agrees R x y)
    (hRS : ∀ a b, R a b → S a b) : Agrees S x y := by
  cases y with
  | none => exact h
  | some b =>
    obtain ⟨a, ha, hab⟩ := h
    exact ⟨a, ha, hRS a b hab⟩

theorem Agrees.bind_some {γ : Type} {R : α → β → Prop} {S : α → γ → Prop} {x : Except ε α}
    {y : Option β} {g : β → γ} (h : Agrees R x y) (hg : ∀ a b, R a b → S a (g b)) :
    Agrees S x (y >>= fun b ↦ some (g b)) := by
  cases y with
  | none => exact h
  | some b =>
    obtain ⟨a, ha, hab⟩ := h
    exact ⟨a, ha, hg a b hab⟩

theorem Agrees.bind_ok {γ : Type} {R : α → β → Prop} {S : γ → β → Prop} {x : Except ε α}
    {y : Option β} {f : α → γ} (h : Agrees R x y) (hf : ∀ a b, y = some b → R a b → S (f a) b) :
    Agrees S (x >>= fun a ↦ .ok (f a)) y := by
  cases y with
  | none =>
    obtain ⟨e, rfl⟩ := h
    exact ⟨e, rfl⟩
  | some b =>
    obtain ⟨a, rfl, hab⟩ := h
    exact ⟨f a, rfl, hf a b rfl hab⟩

theorem agrees_toOption (x : Except ε α) : Agrees (fun a b ↦ a = b ∧ x = .ok b) x x.toOption := by
  cases x with
  | error e => exact ⟨e, rfl⟩
  | ok a => exact ⟨a, rfl, rfl, rfl⟩

theorem Agrees.mapError {R : α → β → Prop} {x : Except ε α} {y : Option β} (h : Agrees R x y)
    (f : ε → ε') : Agrees R (x.mapError f) y := by
  cases y with
  | none =>
    obtain ⟨e, rfl⟩ := h
    exact ⟨f e, rfl⟩
  | some b =>
    obtain ⟨a, rfl, hab⟩ := h
    exact ⟨a, rfl, hab⟩

theorem Agrees.isOk_iff {R : α → β → Prop} {x : Except ε α} {y : Option β} (h : Agrees R x y) :
    (∃ a, x = .ok a) ↔ ∃ b, y = some b := by
  cases y with
  | none =>
    obtain ⟨e, rfl⟩ := h
    simp
  | some b =>
    obtain ⟨a, rfl, -⟩ := h
    simp

theorem Agrees.of_ok {R : α → β → Prop} {x : Except ε α} {y : Option β} (h : Agrees R x y) {a : α}
    (ha : x = .ok a) : ∃ b, y = some b ∧ R a b := by
  cases y with
  | none =>
    obtain ⟨e, he⟩ := h
    simp [ha] at he
  | some b =>
    obtain ⟨a', ha', hab⟩ := h
    obtain rfl := Except.ok.inj (ha.symm.trans ha')
    exact ⟨b, rfl, hab⟩

/-- Two computations that fail with the same error, or succeed with related results. -/
inductive Matches (R : α → β → Prop) : Except ε α → Except ε β → Prop
  | error (e : ε) : Matches R (.error e) (.error e)
  | ok {a : α} {b : β} (h : R a b) : Matches R (.ok a) (.ok b)

theorem Matches.bind {α' β' : Type} {R : α → β → Prop} {S : α' → β' → Prop} {x : Except ε α}
    {y : Except ε β} {f : α → Except ε α'} {g : β → Except ε β'} (h : Matches R x y)
    (hf : ∀ a b, R a b → Matches S (f a) (g b)) : Matches S (x >>= f) (y >>= g) := by
  cases h with
  | error e => exact .error e
  | ok h => exact hf _ _ h

theorem Matches.mapError {R : α → β → Prop} {x : Except ε α} {y : Except ε β} (h : Matches R x y)
    (f : ε → ε') : Matches R (x.mapError f) (y.mapError f) := by
  cases h with
  | error e => exact .error (f e)
  | ok h => exact .ok h

theorem Matches.eq_map {R : α → β → Prop} {x : Except ε α} {y : Except ε β} (h : Matches R x y)
    {f : α → β} (hf : ∀ a b, R a b → b = f a) : y = x.map f := by
  cases h with
  | error e => rfl
  | ok h => exact congrArg Except.ok (hf _ _ h)

theorem mapM_eq_ok {f : α → Except ε β} {as : List α} {bs : List β} :
    as.mapM f = .ok bs ↔ List.Forall₂ (fun a b ↦ f a = .ok b) as bs := by
  induction as generalizing bs with
  | nil =>
    rw [List.mapM_nil, pure_eq_ok, List.forall₂_nil_left_iff]
    exact eq_comm
  | cons a as ih =>
    simp only [List.mapM_cons, bind_eq_ok, pure_eq_ok, ih, List.forall₂_cons_left_iff]
    constructor
    · rintro ⟨b, hb, bs, hbs, rfl⟩
      exact ⟨b, bs, hb, hbs, rfl⟩
    · rintro ⟨b, bs, hb, hbs, rfl⟩
      exact ⟨b, hb, bs, hbs, rfl⟩

theorem exists_mapM_eq_ok_iff {f : α → Except ε β} {as : List α} :
    (∃ bs, as.mapM f = .ok bs) ↔ ∀ a ∈ as, ∃ b, f a = .ok b := by
  simp only [mapM_eq_ok]
  induction as with
  | nil => simp
  | cons a as ih =>
    rw [List.forall_mem_cons, ← ih]
    simp only [List.forall₂_cons_left_iff]
    constructor
    · rintro ⟨_, b, bs, hb, hbs, rfl⟩
      exact ⟨⟨b, hb⟩, bs, hbs⟩
    · rintro ⟨⟨b, hb⟩, bs, hbs⟩
      exact ⟨_, b, bs, hb, hbs, rfl⟩

theorem mapM_cons_eq_error {f : α → Except ε β} {a : α} {as : List α} {e : ε} :
    (a :: as).mapM f = .error e ↔
      f a = .error e ∨ (∃ b, f a = .ok b) ∧ as.mapM f = .error e := by
  rw [List.mapM_cons]
  cases f a with
  | error e' => simp [bind, Except.bind]
  | ok b => cases as.mapM f <;> simp [bind, Except.bind, pure, Except.pure]

theorem mapM_singleton_eq_error {f : α → Except ε β} {a : α} {e : ε} :
    [a].mapM f = .error e ↔ f a = .error e := by
  rw [mapM_cons_eq_error]
  simp [pure, Except.pure]

theorem mapM_eq_error {f : α → Except ε β} {as : List α} {e : ε} :
    as.mapM f = .error e ↔ ∃ before a after, as = before ++ a :: after ∧
      (∀ b ∈ before, ∃ c, f b = .ok c) ∧ f a = .error e := by
  induction as with
  | nil => simp [pure, Except.pure]
  | cons a as ih =>
    rw [mapM_cons_eq_error, ih]
    simp only [List.cons_eq_append_iff]
    constructor
    · intro h
      rcases h with h | ⟨hb, before, a', after, rfl, hbefore, ha'⟩
      · exact ⟨[], a, as, .inl ⟨rfl, rfl⟩, by simp, h⟩
      · exact ⟨a :: before, a', after, .inr ⟨before, rfl, rfl⟩,
          List.forall_mem_cons.mpr ⟨hb, hbefore⟩, ha'⟩
    · intro h
      obtain ⟨before, a', after, ⟨rfl, heq⟩ | ⟨before, rfl, rfl⟩, hbefore, ha'⟩ := h
      · obtain ⟨rfl, -⟩ := List.cons.inj heq
        exact .inl ha'
      · obtain ⟨hb, hbefore⟩ := List.forall_mem_cons.mp hbefore
        exact .inr ⟨hb, before, a', after, rfl, hbefore, ha'⟩

theorem mapM_filter_eq_error {f : α → Except ε β} {p : α → Bool} {as : List α} {e : ε}
    (h : ∀ a ∈ as, p a = false → ∃ b, f a = .ok b) :
    (as.filter p).mapM f = .error e ↔ as.mapM f = .error e := by
  induction as with
  | nil => rfl
  | cons a as ih =>
    rw [List.forall_mem_cons] at h
    rw [List.filter_cons, mapM_cons_eq_error, ← ih h.2]
    cases hp : p a with
    | true => rw [if_pos rfl, mapM_cons_eq_error]
    | false =>
      obtain ⟨b, hb⟩ := h.1 hp
      simp [hb]

theorem mapM_eraseDups_eq_error [BEq α] [LawfulBEq α] {f : α → Except ε β} {as : List α} {e : ε} :
    as.eraseDups.mapM f = .error e ↔ as.mapM f = .error e := by
  induction hn : as.length using Nat.strongRecOn generalizing as with
  | ind n ih =>
    cases as with
    | nil => rfl
    | cons a as =>
      have hlength : (as.filter fun b ↦ !b == a).length < n := by
        have hle := List.length_filter_le (fun b ↦ !b == a) as
        rw [List.length_cons] at hn
        omega
      rw [List.eraseDups_cons, mapM_cons_eq_error, mapM_cons_eq_error, ih _ hlength rfl]
      refine or_congr_right (and_congr_right fun hb ↦ mapM_filter_eq_error fun c _ hc ↦ ?_)
      obtain rfl : c = a := by simpa using hc
      exact hb

theorem exists_of_mapM_eq_error {f : α → Except ε β} {as : List α} {e : ε}
    (h : as.mapM f = .error e) : ∃ a ∈ as, f a = .error e := by
  obtain ⟨before, a, after, rfl, -, ha⟩ := mapM_eq_error.mp h
  exact ⟨a, by simp, ha⟩

theorem mapM_eq_ok_map {f : α → Except ε β} {g : α → β} {as : List α}
    (h : ∀ a ∈ as, f a = .ok (g a)) : as.mapM f = .ok (as.map g) := by
  rw [mapM_eq_ok, List.forall₂_map_right_iff, List.forall₂_same]
  exact h

theorem mapM_eq_ok_iff_map {f : α → Except ε β} {g : β → α} (hg : ∀ a b, f a = .ok b → g b = a)
    {as : List α} {bs : List β} :
    as.mapM f = .ok bs ↔ bs.map g = as ∧ ∀ b ∈ bs, f (g b) = .ok b := by
  rw [mapM_eq_ok]
  constructor
  · intro h
    induction h with
    | nil => simp
    | cons hab _ ih =>
      obtain ⟨rfl, ih⟩ := ih
      obtain rfl := hg _ _ hab
      exact ⟨rfl, by simpa using ⟨hab, ih⟩⟩
  · rintro ⟨rfl, h⟩
    rw [List.forall₂_map_left_iff]
    exact List.forall₂_same.mpr h

end Except
