import SystemDynamics.Equation.Evaluation
import SystemDynamics.Proofs.Outcome

namespace SystemDynamics.Equation

namespace Term

variable {ν μ ε : Type}

@[elab_as_elim]
theorem induction {motive : Term ν → Prop} (number : ∀ x, motive (number x))
    (var : ∀ v, motive (var v)) (signed : ∀ s t, motive t → motive (signed s t))
    (binary : ∀ op l r, motive l → motive r → motive (binary op l r))
    (call : ∀ f ts, (∀ t ∈ ts, motive t) → motive (call f ts)) (t : Term ν) : motive t :=
  @Term.rec ν motive (fun ts ↦ ∀ t ∈ ts, motive t) number var signed binary call (by simp)
    (fun t ts ht hts ↦ by simpa using ⟨ht, hts⟩) t

theorem namesAll_eq (ts : List (Term ν)) : namesAll ts = ts.flatMap names := by
  induction ts with
  | nil => rfl
  | cons t ts ih => rw [namesAll, ih, List.flatMap_cons]

theorem renameAll_eq (f : ν → Except ε μ) (ts : List (Term ν)) :
    renameAll f ts = ts.mapM (rename f) := by
  induction ts with
  | nil => rfl
  | cons t ts ih =>
    rw [renameAll, ih, List.mapM_cons]

theorem evalAll_eq (spell : ν → String) (scope : Scope ν) (ts : List (Term ν)) :
    evalAll spell scope ts = ts.mapM (eval spell scope) := by
  induction ts with
  | nil => rfl
  | cons t ts ih =>
    rw [evalAll, ih, List.mapM_cons]

theorem names_rename (f : ν → Except ε μ) (t : Term ν) :
    (t.rename f).map names = t.names.mapM f := by
  induction t using Term.induction with
  | number x => rfl
  | var v =>
    cases h : f v <;>
      simp [rename, names, h, Except.map, bind, Except.bind, pure, Except.pure]
  | signed s t ih =>
    rw [names, ← ih, rename]
    cases t.rename f <;> rfl
  | binary op l r ihl ihr =>
    rw [names, List.mapM_append, ← ihl, ← ihr, rename]
    cases l.rename f <;> cases r.rename f <;> rfl
  | call g ts ih =>
    have hts : (ts.mapM (rename f)).map namesAll = (ts.flatMap names).mapM f := by
      induction ts with
      | nil => rfl
      | cons t ts ihts =>
        rw [List.mapM_cons, List.flatMap_cons, List.mapM_append, ← ih t List.mem_cons_self,
          ← ihts fun t ht ↦ ih t (List.mem_cons_of_mem _ ht)]
        cases t.rename f <;> cases ts.mapM (rename f) <;> rfl
    rw [names, namesAll_eq, ← hts, rename, renameAll_eq]
    cases ts.mapM (rename f) <;> rfl

theorem mapM_names {f : ν → Except ε μ} {t : Term ν} {t' : Term μ} (h : t.rename f = .ok t') :
    List.Forall₂ (fun v w ↦ f v = .ok w) t.names t'.names := by
  rw [← Except.mapM_eq_ok, ← names_rename, h]
  rfl

theorem exists_rename_eq_ok_iff {f : ν → Except ε μ} {t : Term ν} :
    (∃ t', t.rename f = .ok t') ↔ ∀ v ∈ t.names, ∃ w, f v = .ok w := by
  rw [← Except.exists_map_eq_ok_iff (f := names), names_rename, Except.exists_mapM_eq_ok_iff]

/-- What a call comes to, given what each argument comes to: of a choice only the branch taken
counts. -/
def outcome (f : Builtin) (arguments : List (Except Fault Float)) : Except Fault Float :=
  match f, arguments with
  | .ifThenElse, c :: t :: e :: _ => c >>= fun c ↦ if c != 0 then t else e
  | .ifThenElse, _ => .error (.missingArgument .ifThenElse)
  | f, xs => xs.mapM id >>= f.apply

theorem outcome_of_ne {f : Builtin} (hf : f ≠ .ifThenElse) (xs : List (Except Fault Float)) :
    outcome f xs = xs.mapM id >>= f.apply := by
  cases f <;> first | rfl | contradiction

theorem eval_call (spell : ν → String) (scope : Scope ν) (f : Builtin) (ts : List (Term ν)) :
    (call f ts).eval spell scope = outcome f (ts.map (eval spell scope)) := by
  have hall : ts.mapM (eval spell scope) = (ts.map (eval spell scope)).mapM id := by
    rw [List.mapM_map]
    rfl
  cases f
  case ifThenElse =>
    match ts with
    | [] | [_] | [_, _] => rfl
    | _ :: _ :: _ :: _ => rfl
  all_goals
    simp only [eval, outcome, evalAll_eq, hall]

theorem eval_congr (spell : ν → String) {scope scope' : Scope ν} (t : Term ν)
    (h : ∀ v ∈ t.names, scope v = scope' v) : t.eval spell scope = t.eval spell scope' := by
  induction t using Term.induction with
  | number x => rfl
  | var v => rw [eval, eval, h v (by simp [names])]
  | signed s t ih => rw [eval, eval, ih h]
  | binary op l r ihl ihr =>
    simp only [names, List.mem_append] at h
    rw [eval, eval, ihl fun v hv ↦ h v (.inl hv), ihr fun v hv ↦ h v (.inr hv)]
  | call f ts ih =>
    have hts : ts.map (eval spell scope) = ts.map (eval spell scope') := by
      refine List.map_congr_left fun t ht ↦ ih t ht fun v hv ↦ h v ?_
      rw [names, namesAll_eq]
      exact List.mem_flatMap.mpr ⟨t, ht, hv⟩
    rw [eval_call, eval_call, hts]

end Term

theorem evaluate_congr {scope scope' : Scope String} {source : String}
    (h : ∀ t, parse source = .ok t → ∀ v ∈ t.names, scope v = scope' v) :
    evaluate scope source = evaluate scope' source := by
  rw [evaluate, evaluate]
  cases ht : parse source with
  | error fault => rfl
  | ok t => exact t.eval_congr id (h t ht)

end SystemDynamics.Equation
