import SystemDynamics.Proofs.Equation.Term

namespace SystemDynamics.Equation

/-- The fault with the variable that it names spelled in another way. -/
def Fault.respell (f : String → String) : Fault → Fault
  | .unknown name => .unknown (f name)
  | .undefined (.held name x) => .undefined (.held (f name) x)
  | fault => fault

variable {f : String → String}

theorem Operator.apply_respell (op : Operator) (a b : Float) :
    (op.apply a b).mapError (Fault.respell f) = op.apply a b := by
  rw [apply]
  split
  case isTrue => rfl
  case isFalse =>
    dsimp only
    split <;> rfl

theorem Builtin.value_respell (g : Builtin) (xs : List Float) :
    (g.value xs).mapError (Fault.respell f) = g.value xs := by
  unfold value
  split <;> first | rfl | (split <;> rfl)

theorem Builtin.apply_respell (g : Builtin) (xs : List Float) :
    (g.apply xs).mapError (Fault.respell f) = g.apply xs := by
  rw [apply, Except.mapError_bind, value_respell]
  refine bind_congr fun x ↦ ?_
  split <;> rfl

namespace Term

variable {ν μ ε : Type}

theorem outcome_respell (g : Builtin) (xs : List (Except Fault Float)) :
    (outcome g xs).mapError (Fault.respell f) =
      outcome g (xs.map (·.mapError (Fault.respell f))) := by
  by_cases hg : g = .ifThenElse
  · subst hg
    match xs with
    | [] | [_] | [_, _] => rfl
    | c :: t :: e :: _ =>
      simp only [outcome, List.map_cons, Except.mapError_bind]
      refine bind_congr fun x ↦ ?_
      split <;> rfl
  · have hid : ∀ ys : List (Except Fault Float), (ys.mapM id).mapError (Fault.respell f) =
        (ys.map (·.mapError (Fault.respell f))).mapM id := by
      intro ys
      induction ys with
      | nil => rfl
      | cons y ys ih =>
        rw [List.map_cons, List.mapM_cons, List.mapM_cons, ← ih]
        cases y with
        | error fault => rfl
        | ok x => cases ys.mapM id <;> rfl
    rw [outcome_of_ne hg, outcome_of_ne hg, Except.mapError_bind, hid]
    exact bind_congr fun ys ↦ g.apply_respell ys

/-- A renamed term has the value of the term, if each name has the value of the name it came from,
or its fault, in which the variable is spelled as the new name is. -/
theorem eval_rename_respell {rename : ν → Except ε μ} {spell : ν → String} {spell' : μ → String}
    {scope : Scope ν} {scope' : Scope μ} {t : Term ν} {t' : Term μ}
    (h : t.rename rename = .ok t')
    (hs : ∀ v ∈ t.names, ∀ w, rename v = .ok w → scope' w = scope v ∧ spell' w = f (spell v)) :
    t'.eval spell' scope' = (t.eval spell scope).mapError (Fault.respell f) := by
  induction t using Term.induction generalizing t' with
  | number x =>
    obtain rfl := Except.ok.inj h
    rfl
  | var v =>
    obtain ⟨w, hw, h⟩ := Except.bind_eq_ok.mp h
    obtain rfl := Except.pure_eq_ok.mp h
    obtain ⟨hscope, hspell⟩ := hs v (by simp [names]) w hw
    rw [eval, eval, hscope, hspell]
    cases scope v with
    | none => rfl
    | some x =>
      dsimp only
      split <;> rfl
  | signed s t ih =>
    obtain ⟨u, hu, h⟩ := Except.bind_eq_ok.mp h
    obtain rfl := Except.pure_eq_ok.mp h
    rw [eval, eval, Except.mapError_bind, ih hu hs]
    rfl
  | binary op l r ihl ihr =>
    obtain ⟨l', hl, h⟩ := Except.bind_eq_ok.mp h
    obtain ⟨r', hr, h⟩ := Except.bind_eq_ok.mp h
    obtain rfl := Except.pure_eq_ok.mp h
    simp only [names, List.mem_append] at hs
    simp only [eval, Except.mapError_bind, ihl hl fun v hv ↦ hs v (.inl hv),
      ihr hr fun v hv ↦ hs v (.inr hv), Operator.apply_respell]
  | call g ts ih =>
    obtain ⟨ts', hts, hpure⟩ := Except.bind_eq_ok.mp h
    obtain rfl := Except.pure_eq_ok.mp hpure
    rw [renameAll_eq, Except.mapM_eq_ok] at hts
    rw [names, namesAll_eq] at hs
    clear h hpure
    rw [eval_call, eval_call, outcome_respell, List.map_map]
    congr 1
    induction hts with
    | nil => rfl
    | cons hab hts ihts =>
      rw [List.forall_mem_cons] at ih
      simp only [List.flatMap_cons, List.mem_append] at hs
      rw [List.map_cons, List.map_cons, ih.1 hab fun v hv ↦ hs v (.inl hv),
        ihts ih.2 fun v hv ↦ hs v (.inr hv)]
      rfl

theorem outcome_fault {g : Builtin} {xs : List (Except Fault Float)} {fault : Fault}
    (h : outcome g xs = .error fault) :
    .error fault ∈ xs ∨ ∀ f, fault.respell f = fault := by
  by_cases hg : g = .ifThenElse
  · subst hg
    match xs with
    | [] | [_] | [_, _] =>
      obtain rfl := Except.error.inj h
      exact .inr fun f ↦ rfl
    | c :: t :: e :: _ =>
      rcases Except.bind_eq_error.mp h with h | ⟨x, -, h⟩
      · simp [h]
      · split at h <;> simp [h]
  · rw [outcome_of_ne hg] at h
    rcases Except.bind_eq_error.mp h with h | ⟨ys, -, h⟩
    · obtain ⟨x, hx, rfl⟩ := Except.exists_of_mapM_eq_error h
      exact .inl hx
    · refine .inr fun f ↦ ?_
      have happly := g.apply_respell (f := f) ys
      rw [h] at happly
      exact Except.error.inj happly

theorem eval_fault {spell : ν → String} {scope : Scope ν} {t : Term ν} {fault : Fault}
    (h : t.eval spell scope = .error fault) :
    (∀ f, fault.respell f = fault) ∨
      ∃ v ∈ t.names, (scope v = none ∧ fault = .unknown (spell v)) ∨
        ∃ x, scope v = some x ∧ x.isFinite = false ∧ fault = .undefined (.held (spell v) x) := by
  induction t using Term.induction with
  | number x => simp [eval] at h
  | var v =>
    refine .inr ⟨v, by simp [names], ?_⟩
    rw [eval] at h
    split at h
    case h_1 hv => exact .inl ⟨hv, (Except.error.inj h).symm⟩
    case h_2 x hx =>
      split at h
      case isTrue => simp at h
      case isFalse hfinite =>
        exact .inr ⟨x, hx, by simpa using hfinite, (Except.error.inj h).symm⟩
  | signed s t ih =>
    rcases Except.bind_eq_error.mp h with h | ⟨x, -, h⟩
    · exact ih h
    · simp [pure, Except.pure] at h
  | binary op l r ihl ihr =>
    simp only [names, List.mem_append]
    rcases Except.bind_eq_error.mp h with h | ⟨a, -, h⟩
    · refine (ihl h).imp_right fun hv ↦ ?_
      obtain ⟨v, hv, hfault⟩ := hv
      exact ⟨v, .inl hv, hfault⟩
    · rcases Except.bind_eq_error.mp h with h | ⟨b, -, h⟩
      · refine (ihr h).imp_right fun hv ↦ ?_
        obtain ⟨v, hv, hfault⟩ := hv
        exact ⟨v, .inr hv, hfault⟩
      · refine .inl fun f ↦ ?_
        have happly := op.apply_respell (f := f) a b
        rw [h] at happly
        exact Except.error.inj happly
  | call g ts ih =>
    rw [eval_call] at h
    rcases outcome_fault h with hmem | hnameless
    · obtain ⟨t, ht, hfault⟩ := List.mem_map.mp hmem
      refine (ih t ht hfault).imp_right fun hv ↦ ?_
      obtain ⟨v, hv, hfault⟩ := hv
      rw [names, namesAll_eq]
      exact ⟨v, List.mem_flatMap.mpr ⟨t, ht, hv⟩, hfault⟩
    · exact .inl hnameless

end Term

end SystemDynamics.Equation
