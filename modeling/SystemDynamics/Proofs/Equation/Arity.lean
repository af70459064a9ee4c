import SystemDynamics.Proofs.Equation.Derivation
import SystemDynamics.Proofs.Equation.Finite

namespace SystemDynamics.Equation

theorem Builtin.value_eq_error {f : Builtin} {arguments : List Float} {fault : Fault}
    (hfit : f.arity.accepts arguments.length) (h : f.value arguments = .error fault) :
    ∃ cause, fault = .undefined cause := by
  have hcount : ∀ n, (Arity.exactly n).accepts arguments.length = true → arguments.length = n :=
    fun n hn ↦ by simpa [Arity.accepts] using hn
  cases f
  case min | max => simp [value] at h
  case pow =>
    obtain ⟨x, y, rfl⟩ := List.length_eq_two.mp (hcount 2 hfit)
    simp [value] at h
  case clip | ifThenElse | step | ramp =>
    obtain ⟨x, y, z, rfl⟩ := List.length_eq_three.mp (hcount 3 hfit)
    simp [value] at h
  case pulse =>
    have hlength := hcount 4 hfit
    match arguments with
    | [t, start, duration, height] => simp [value] at h
  all_goals
    obtain ⟨x, rfl⟩ := List.length_eq_one_iff.mp (hcount 1 hfit)
    simp only [value] at h
    first
    | exact absurd h (by simp)
    | split at h
      · exact ⟨_, (Except.error.inj h).symm⟩
      · simp at h

theorem Builtin.apply_eq_error {f : Builtin} {arguments : List Float} {fault : Fault}
    (hfit : f.arity.accepts arguments.length) (h : f.apply arguments = .error fault) :
    ∃ cause, fault = .undefined cause := by
  rcases Except.bind_eq_error.mp h with h | ⟨x, -, h⟩
  · exact value_eq_error hfit h
  · split at h
    case isTrue => simp [pure, Except.pure] at h
    case isFalse => exact ⟨_, (Except.error.inj h).symm⟩

theorem Operator.apply_eq_error {op : Operator} {a b : Float} {fault : Fault}
    (h : op.apply a b = .error fault) : ∃ cause, fault = .undefined cause := by
  rw [Operator.apply] at h
  split at h
  case isTrue => exact ⟨_, (Except.error.inj h).symm⟩
  case isFalse =>
    dsimp only at h
    split at h
    case isTrue => simp at h
    case isFalse => exact ⟨_, (Except.error.inj h).symm⟩

namespace Term

variable {ν μ ε : Type}

mutual

def CallsFit : Term ν → Prop
  | number _ | var _ => True
  | signed _ t => t.CallsFit
  | binary _ l r => l.CallsFit ∧ r.CallsFit
  | call f ts => f.arity.accepts ts.length ∧ AllCallsFit ts

def AllCallsFit : List (Term ν) → Prop
  | [] => True
  | t :: ts => t.CallsFit ∧ AllCallsFit ts

end

theorem allCallsFit_iff {ts : List (Term ν)} : AllCallsFit ts ↔ ∀ t ∈ ts, t.CallsFit := by
  induction ts with
  | nil => simp [AllCallsFit]
  | cons t ts ih => rw [AllCallsFit, ih, List.forall_mem_cons]

theorem rename_keeps {f : ν → Except ε μ} {t : Term ν} {t' : Term μ} (h : t.rename f = .ok t') :
    t'.numerals = t.numerals ∧ (t.CallsFit → t'.CallsFit) := by
  induction t using Term.induction generalizing t' with
  | number x =>
    obtain rfl := Except.ok.inj h
    exact ⟨rfl, id⟩
  | var v =>
    obtain ⟨w, -, h⟩ := Except.bind_eq_ok.mp h
    obtain rfl := Except.pure_eq_ok.mp h
    exact ⟨rfl, id⟩
  | signed s t ih =>
    obtain ⟨u, hu, h⟩ := Except.bind_eq_ok.mp h
    obtain rfl := Except.pure_eq_ok.mp h
    obtain ⟨hnumerals, hfit⟩ := ih hu
    exact ⟨hnumerals, hfit⟩
  | binary op l r ihl ihr =>
    obtain ⟨l', hl, h⟩ := Except.bind_eq_ok.mp h
    obtain ⟨r', hr, h⟩ := Except.bind_eq_ok.mp h
    obtain rfl := Except.pure_eq_ok.mp h
    obtain ⟨hnumerals, hfit⟩ := ihl hl
    obtain ⟨hnumerals', hfit'⟩ := ihr hr
    exact ⟨by rw [numerals, numerals, hnumerals, hnumerals'], And.imp hfit hfit'⟩
  | call g ts ih =>
    obtain ⟨ts', hts, hpure⟩ := Except.bind_eq_ok.mp h
    obtain rfl := Except.pure_eq_ok.mp hpure
    rw [renameAll_eq, Except.mapM_eq_ok] at hts
    have hall : numeralsAll ts' = numeralsAll ts ∧ (AllCallsFit ts → AllCallsFit ts') := by
      clear h hpure
      induction hts with
      | nil => exact ⟨rfl, id⟩
      | cons ht _ ihts =>
        rw [List.forall_mem_cons] at ih
        obtain ⟨hnumerals, hfit⟩ := ih.1 ht
        obtain ⟨hnumerals', hfit'⟩ := ihts ih.2
        exact ⟨by rw [numeralsAll, numeralsAll, hnumerals, hnumerals'], And.imp hfit hfit'⟩
    exact ⟨hall.1, And.imp (fun hcount ↦ hts.length_eq ▸ hcount) hall.2⟩

theorem outcome_eq_error {f : Builtin} {xs : List (Except Fault Float)} {fault : Fault}
    (hfit : f.arity.accepts xs.length) (h : outcome f xs = .error fault) :
    .error fault ∈ xs ∨ ∃ cause, fault = .undefined cause := by
  by_cases hf : f = .ifThenElse
  · subst hf
    match xs with
    | [c, t, e] =>
      rcases Except.bind_eq_error.mp h with h | ⟨x, -, h⟩
      · simp [h]
      · split at h <;> simp [h]
  · rw [outcome_of_ne hf] at h
    rcases Except.bind_eq_error.mp h with h | ⟨ys, hys, h⟩
    · obtain ⟨x, hx, hfault⟩ := Except.exists_of_mapM_eq_error h
      exact .inl (hfault ▸ hx)
    · rw [Except.mapM_eq_ok] at hys
      exact .inr (Builtin.apply_eq_error (hys.length_eq ▸ hfit) h)

theorem eval_eq_error {spell : ν → String} {scope : Scope ν} {t : Term ν} {fault : Fault}
    (hfit : t.CallsFit) (h : t.eval spell scope = .error fault) :
    (∃ cause, fault = .undefined cause) ∨
      ∃ v ∈ t.names, scope v = none ∧ fault = .unknown (spell v) := by
  induction t using Term.induction with
  | number x => simp [eval] at h
  | var v =>
    rw [eval] at h
    split at h
    case h_1 hv => exact .inr ⟨v, by simp [names], hv, (Except.error.inj h).symm⟩
    case h_2 =>
      split at h
      case isTrue => simp at h
      case isFalse => exact .inl ⟨_, (Except.error.inj h).symm⟩
  | signed s t ih =>
    rcases Except.bind_eq_error.mp h with h | ⟨x, -, h⟩
    · exact ih hfit h
    · simp [pure, Except.pure] at h
  | binary op l r ihl ihr =>
    rw [names]
    simp only [List.mem_append]
    rcases Except.bind_eq_error.mp h with h | ⟨a, -, h⟩
    · refine (ihl hfit.1 h).imp_right ?_
      rintro ⟨v, hv, hnone⟩
      exact ⟨v, .inl hv, hnone⟩
    · rcases Except.bind_eq_error.mp h with h | ⟨b, -, h⟩
      · refine (ihr hfit.2 h).imp_right ?_
        rintro ⟨v, hv, hnone⟩
        exact ⟨v, .inr hv, hnone⟩
      · exact .inl (Operator.apply_eq_error h)
  | call f ts ih =>
    obtain ⟨hcount, hts⟩ := hfit
    rw [eval_call] at h
    rcases outcome_eq_error (by rwa [List.length_map]) h with hmem | hcause
    · obtain ⟨t, ht, hfault⟩ := List.mem_map.mp hmem
      refine (ih t ht (allCallsFit_iff.mp hts t ht) hfault).imp_right ?_
      rintro ⟨v, hv, hnone⟩
      rw [names, namesAll_eq]
      exact ⟨v, List.mem_flatMap.mpr ⟨t, ht, hv⟩, hnone⟩
    · exact .inl hcause

/-- A term comes to a finite number or to one of two faults: something in it is undefined, or a name
has nothing under it. That a function misses an argument is neither. -/
def Settles (t : Term ν) (spell : ν → String) (scope : Scope ν) : Prop :=
  match t.eval spell scope with
  | .ok x => x.isFinite
  | .error fault => (∃ cause, fault = .undefined cause) ∨
      ∃ v ∈ t.names, scope v = none ∧ fault = .unknown (spell v)

theorem settles {t : Term ν} (hnumerals : ∀ x ∈ t.numerals, x.isFinite) (hfit : t.CallsFit)
    (spell : ν → String) (scope : Scope ν) : t.Settles spell scope := by
  rw [Settles]
  cases h : t.eval spell scope with
  | ok x => exact eval_isFinite hnumerals h
  | error fault => exact eval_eq_error hfit h

end Term

def Category.CallsFit : (k : Category) → k.Meaning → Prop
  | expression _, t => Term.CallsFit t
  | tail _, extend => ∀ left : Term String, left.CallsFit → Term.CallsFit (extend left)
  | arguments _, ts | moreArguments _, ts => Term.AllCallsFit ts

theorem Phrase.callsFit : {k : Category} → (c : Phrase k) → k.CallsFit c.term
  | _, tier first tail => tail.callsFit _ first.callsFit
  | _, done => fun _ h ↦ h
  | _, link _ _ right tail => fun _ h ↦ tail.callsFit _ ⟨h, right.callsFit⟩
  | _, signed _ operand => operand.callsFit
  | _, unsigned power => power.callsFit
  | _, number _ | _, name _ => trivial
  | _, call _ h arguments => ⟨by rwa [arguments.length_arguments], arguments.callsFit⟩
  | _, group inner => inner.callsFit
  | _, noArguments | _, noMore => trivial
  | _, firstArgument first more => ⟨first.callsFit, more.callsFit⟩
  | _, nextArgument next more => ⟨next.callsFit, more.callsFit⟩

theorem parse_callsFit {source : String} {t : Term String} (h : parse source = .ok t) :
    t.CallsFit := by
  obtain ⟨lexemes, -, h⟩ := Except.bind_eq_ok.mp h
  obtain ⟨c, -, rfl, -, -⟩ := parseLexemes_derives h
  exact c.callsFit

/-- The term of an equation comes to a finite number or to a fault in every scope, whatever the scope
lacks or holds, and no function misses an argument on the way. So does every term that renaming
makes of it, in every scope of the new names. -/
theorem parsed_terms_settle (source : String) (t : Term String) (h : parse source = .ok t) :
    (∀ spell scope, t.Settles spell scope) ∧
    ∀ {ε μ : Type} (f : String → Except ε μ) (t' : Term μ), t.rename f = .ok t' →
      ∀ spell scope, t'.Settles spell scope := by
  have hnumerals := parse_numerals h
  have hfit := parse_callsFit h
  refine ⟨Term.settles hnumerals hfit, fun f t' ht' ↦ ?_⟩
  obtain ⟨hkept, hfit'⟩ := Term.rename_keeps ht'
  exact Term.settles (hkept ▸ hnumerals) (hfit' hfit)

theorem parsed_terms_settle_choice :
    ∃ t, parse "if_then_else(a, min(b, 2), 1 / c)" = .ok t ∧
      t.Settles id (fun v ↦ if v = "a" then some (0.0 / 0.0) else none) ∧
      ∃ t', t.rename (fun v ↦ (.ok v.length : Except Unit Nat)) = .ok t' ∧
        t'.Settles toString fun _ ↦ some (1.0 / 0.0) := by
  obtain ⟨t, ht⟩ : ∃ t, parse "if_then_else(a, min(b, 2), 1 / c)" = .ok t :=
    Except.toBool_eq_true.mp (by decide +kernel)
  obtain ⟨t', ht'⟩ := Term.exists_rename_eq_ok_iff.mpr fun (v : String) (_ : v ∈ t.names) ↦
    (⟨v.length, rfl⟩ : ∃ n, (Except.ok v.length : Except Unit Nat) = .ok n)
  have h := parsed_terms_settle _ t ht
  exact ⟨t, ht, h.1 _ _, t', ht', h.2 _ t' ht' _ _⟩

end SystemDynamics.Equation
