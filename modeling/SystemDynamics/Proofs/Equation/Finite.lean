import SystemDynamics.Proofs.Equation.Leaves
import SystemDynamics.Proofs.Number.Arithmetic

namespace SystemDynamics.Equation

theorem Builtin.apply_isFinite {f : Builtin} {arguments : List Float} {x : Float}
    (h : f.apply arguments = .ok x) : x.isFinite := by
  obtain ⟨y, -, h⟩ := Except.bind_eq_ok.mp h
  split at h
  case isTrue hy => rwa [← Except.pure_eq_ok.mp h]
  case isFalse => simp at h

theorem Operator.apply_isFinite {op : Operator} {a b x : Float} (h : op.apply a b = .ok x) :
    x.isFinite := by
  rw [Operator.apply] at h
  split at h
  case isTrue => simp at h
  case isFalse =>
    dsimp only at h
    split at h
    case isTrue hx => rwa [← Except.ok.inj h]
    case isFalse => simp at h

namespace Term

variable {ν : Type}

mutual

def numerals : Term ν → List Float
  | number x => [x]
  | var _ => []
  | signed _ t => t.numerals
  | binary _ l r => l.numerals ++ r.numerals
  | call _ ts => numeralsAll ts

def numeralsAll : List (Term ν) → List Float
  | [] => []
  | t :: ts => t.numerals ++ numeralsAll ts

end

mutual

/-- The variables that are read whatever the choices in a term come to. -/
def certain : Term ν → List ν
  | number _ => []
  | var v => [v]
  | signed _ t => t.certain
  | binary _ l r => l.certain ++ r.certain
  | call .ifThenElse (condition :: _) => condition.certain
  | call .ifThenElse [] => []
  | call _ ts => certainAll ts

def certainAll : List (Term ν) → List ν
  | [] => []
  | t :: ts => t.certain ++ certainAll ts

end

theorem numeralsAll_eq (ts : List (Term ν)) : numeralsAll ts = ts.flatMap numerals := by
  induction ts with
  | nil => rfl
  | cons t ts ih => rw [numeralsAll, ih, List.flatMap_cons]

theorem certainAll_eq (ts : List (Term ν)) : certainAll ts = ts.flatMap certain := by
  induction ts with
  | nil => rfl
  | cons t ts ih => rw [certainAll, ih, List.flatMap_cons]

theorem number_mem_leaves {t : Term String} {x : Float} (h : x ∈ t.numerals) :
    .number x ∈ t.leaves := by
  induction t using Term.induction with
  | number y => simpa [numerals, leaves] using h
  | var w => simp [numerals] at h
  | signed s t ih => exact ih h
  | binary op l r ihl ihr =>
    rw [numerals, List.mem_append] at h
    rw [leaves, List.mem_append]
    exact h.imp ihl ihr
  | call f ts ih =>
    rw [numerals, numeralsAll_eq, List.mem_flatMap] at h
    obtain ⟨t, ht, hx⟩ := h
    rw [leaves, leavesAll_eq]
    exact List.mem_cons_of_mem _ (List.mem_flatMap.mpr ⟨t, ht, ih t ht hx⟩)

theorem eval_call_eq_ok {spell : ν → String} {scope : Scope ν} {f : Builtin} {ts : List (Term ν)}
    {x : Float} :
    (call f ts).eval spell scope = .ok x ↔
      (f = .ifThenElse ∧ ∃ condition t e rest c, ts = condition :: t :: e :: rest ∧
        condition.eval spell scope = .ok c ∧
        (if c != 0 then t else e).eval spell scope = .ok x) ∨
      (f ≠ .ifThenElse ∧ ∃ xs, List.Forall₂ (fun t y ↦ t.eval spell scope = .ok y) ts xs ∧
        f.apply xs = .ok x) := by
  by_cases hf : f = .ifThenElse
  · subst hf
    simp only [true_and, ne_eq, not_true_eq_false, false_and, or_false]
    match ts with
    | [] | [_] | [_, _] => simp [eval]
    | condition :: t :: e :: rest =>
      rw [eval, Except.bind_eq_ok]
      constructor
      · rintro ⟨c, hc, h⟩
        exact ⟨condition, t, e, rest, c, rfl, hc, by split at h <;> simp_all⟩
      · rintro ⟨condition', t', e', rest', c, hts, hc, h⟩
        obtain ⟨rfl, rfl, rfl, rfl⟩ := by simpa using hts
        exact ⟨c, hc, by split at h <;> simp_all⟩
  · simp only [hf, false_and, ne_eq, not_false_eq_true, true_and, false_or]
    have hcall : (call f ts).eval spell scope = ts.mapM (eval spell scope) >>= f.apply := by
      rw [← evalAll_eq]
      cases f <;> first | rfl | contradiction
    rw [hcall, Except.bind_eq_ok]
    simp only [Except.mapM_eq_ok]

theorem eval_isFinite {spell : ν → String} {scope : Scope ν} {t : Term ν} {x : Float}
    (hnumerals : ∀ y ∈ t.numerals, y.isFinite) (h : t.eval spell scope = .ok x) : x.isFinite := by
  induction t using Term.induction generalizing x with
  | number y =>
    obtain rfl := Except.ok.inj h
    exact hnumerals y (by simp [numerals])
  | var v =>
    rw [eval] at h
    split at h
    case h_1 => simp at h
    case h_2 y hy =>
      split at h
      case isTrue hfinite => rwa [← Except.ok.inj h]
      case isFalse => simp at h
  | signed s t ih =>
    obtain ⟨y, hy, h⟩ := Except.bind_eq_ok.mp h
    obtain rfl := Except.pure_eq_ok.mp h
    have hfinite := ih hnumerals hy
    cases s with
    | minus =>
      obtain ⟨q, hq⟩ := Number.exists_hasValue hfinite
      exact (Number.hasValue_neg hq).isFinite
    | plus => exact hfinite
  | binary op l r ihl ihr =>
    obtain ⟨a, ha, h⟩ := Except.bind_eq_ok.mp h
    obtain ⟨b, hb, h⟩ := Except.bind_eq_ok.mp h
    exact Operator.apply_isFinite h
  | call f ts ih =>
    rw [numerals, numeralsAll_eq] at hnumerals
    have hbranch : ∀ t ∈ ts, ∀ y, t.eval spell scope = .ok y → y.isFinite := fun t ht y hy ↦
      ih t ht (fun z hz ↦ hnumerals z (List.mem_flatMap.mpr ⟨t, ht, hz⟩)) hy
    rcases eval_call_eq_ok.mp h with ⟨-, condition, t, e, rest, c, rfl, -, hx⟩ | ⟨-, xs, -, hx⟩
    · split at hx
      · exact hbranch t (by simp) x hx
      · exact hbranch e (by simp) x hx
    · exact Builtin.apply_isFinite hx

theorem eval_of_finite {spell : ν → String} {scope scope' : Scope ν}
    (hscope : ∀ v y, scope v = some y → y.isFinite → scope' v = some y) {t : Term ν} {x : Float}
    (h : t.eval spell scope = .ok x) : t.eval spell scope' = .ok x := by
  induction t using Term.induction generalizing x with
  | number y => exact h
  | var v =>
    rw [eval] at h ⊢
    split at h
    case h_1 => simp at h
    case h_2 y hy =>
      split at h
      case isTrue hfinite => simpa [hscope v y hy hfinite, hfinite] using h
      case isFalse => simp at h
  | signed s t ih =>
    obtain ⟨y, hy, h⟩ := Except.bind_eq_ok.mp h
    exact Except.bind_eq_ok.mpr ⟨y, ih hy, h⟩
  | binary op l r ihl ihr =>
    obtain ⟨a, ha, h⟩ := Except.bind_eq_ok.mp h
    obtain ⟨b, hb, h⟩ := Except.bind_eq_ok.mp h
    exact Except.bind_eq_ok.mpr ⟨a, ihl ha, Except.bind_eq_ok.mpr ⟨b, ihr hb, h⟩⟩
  | call f ts ih =>
    rw [eval_call_eq_ok] at h ⊢
    rcases h with ⟨hf, condition, t, e, rest, c, rfl, hc, hx⟩ | ⟨hf, xs, hxs, hx⟩
    · refine .inl ⟨hf, condition, t, e, rest, c, rfl, ih condition (by simp) hc, ?_⟩
      split at hx
      case isTrue hchosen => simpa [hchosen] using ih t (by simp) hx
      case isFalse hchosen => simpa [hchosen] using ih e (by simp) hx
    · refine .inr ⟨hf, xs, ?_, hx⟩
      clear hx hf
      induction hxs with
      | nil => exact .nil
      | cons hy hys ihys =>
        rw [List.forall_mem_cons] at ih
        exact .cons (ih.1 hy) (ihys ih.2)

/-- What is certainly read holds a finite number, or there is no value. -/
theorem certain_isFinite {spell : ν → String} {scope : Scope ν} {t : Term ν} {x : Float}
    (h : t.eval spell scope = .ok x) {v : ν} (hv : v ∈ t.certain) :
    ∃ y, scope v = some y ∧ y.isFinite := by
  induction t using Term.induction generalizing x with
  | number y => simp [certain] at hv
  | var w =>
    obtain rfl : v = w := by simpa [certain] using hv
    rw [eval] at h
    split at h
    case h_1 => simp at h
    case h_2 y hy =>
      split at h
      case isTrue hfinite => exact ⟨y, hy, hfinite⟩
      case isFalse => simp at h
  | signed s t ih =>
    obtain ⟨y, hy, -⟩ := Except.bind_eq_ok.mp h
    exact ih hy hv
  | binary op l r ihl ihr =>
    obtain ⟨a, ha, h⟩ := Except.bind_eq_ok.mp h
    obtain ⟨b, hb, -⟩ := Except.bind_eq_ok.mp h
    rw [certain, List.mem_append] at hv
    exact hv.elim (ihl ha) (ihr hb)
  | call f ts ih =>
    rcases eval_call_eq_ok.mp h with ⟨rfl, condition, t, e, rest, c, rfl, hc, -⟩ | ⟨hf, xs, hxs, -⟩
    · exact ih condition (by simp) hc hv
    · have hall : (call f ts).certain = certainAll ts := by
        cases f <;> first | rfl | contradiction
      rw [hall, certainAll_eq, List.mem_flatMap] at hv
      obtain ⟨t, ht, hv⟩ := hv
      obtain ⟨y, hy⟩ := Except.exists_mapM_eq_ok_iff.mp ⟨xs, Except.mapM_eq_ok.mpr hxs⟩ t ht
      exact ih t ht hy hv

end Term

theorem operator?_ne_number {c : Char} {next : Option Char} {x : Float} {length : Nat} :
    operator? c next ≠ some (.number x, length) := by
  unfold operator?
  split <;> simp

theorem readToken_number {c : Char} {rest : List Char} {x : Float} {length : Nat}
    (h : readToken c rest = .ok (.number x, length)) : x.isFinite := by
  rw [readToken] at h
  split_ifs at h
  · simp only [readNumber] at h
    split at h
    case isTrue => simp at h
    case isFalse =>
      split at h
      case h_1 => simp at h
      case h_2 y hy =>
        split at h
        case isTrue hfinite =>
          obtain ⟨⟨rfl⟩, -⟩ := Prod.mk.inj (Except.ok.inj h)
          exact hfinite
        case isFalse => simp at h
  · simp at h
  · split at h
    case h_1 token htoken =>
      rw [Except.ok.inj h] at htoken
      exact absurd htoken operator?_ne_number
    case h_2 => simp at h

theorem lexemes_number {covered offset : Nat} {text : List Char} {ls : List Lexeme}
    (h : lexemes covered offset text = .ok ls) {l : Lexeme} (hl : l ∈ ls) {x : Float}
    (hx : l.token = .number x) : x.isFinite := by
  induction text generalizing covered offset ls with
  | nil =>
    obtain rfl : ls = [] := by cases covered <;> exact (Except.ok.inj h).symm
    simp at hl
  | cons c rest ih =>
    cases covered with
    | succ covered => exact ih h hl
    | zero =>
      rw [lexemes] at h
      split at h
      case isTrue => exact ih h hl
      case isFalse =>
        split at h
        case h_1 => simp at h
        case h_2 token length htoken =>
          obtain ⟨later, hlater, h⟩ := Except.bind_eq_ok.mp h
          rw [← Except.pure_eq_ok.mp h, List.mem_cons] at hl
          rcases hl with rfl | hl
          · dsimp only at hx
            rw [hx] at htoken
            exact readToken_number htoken
          · exact ih hlater hl

theorem parse_numerals {source : String} {t : Term String} (h : parse source = .ok t) :
    ∀ x ∈ t.numerals, x.isFinite := by
  intro x hx
  obtain ⟨ls, hls, hleaves⟩ := parse_leaves h
  have hmem := Term.number_mem_leaves hx
  rw [hleaves, leavesOf, List.mem_filter, List.mem_map] at hmem
  obtain ⟨⟨l, hl, ht⟩, -⟩ := hmem
  exact lexemes_number hls hl ht

theorem evaluate_isFinite {scope : Scope String} {source : String} {x : Float}
    (h : evaluate scope source = .ok x) : x.isFinite := by
  obtain ⟨t, ht, hx⟩ := Except.bind_eq_ok.mp h
  exact Term.eval_isFinite (parse_numerals ht) hx

theorem evaluate_certain {scope : Scope String} {source : String} {x : Float}
    (h : evaluate scope source = .ok x) {t : Term String} (ht : parse source = .ok t) {v : String}
    (hv : v ∈ t.certain) : ∃ y, scope v = some y ∧ y.isFinite := by
  obtain ⟨t', ht', hx⟩ := Except.bind_eq_ok.mp h
  obtain rfl := Except.ok.inj (ht.symm.trans ht')
  exact Term.certain_isFinite hx hv

theorem evaluate_of_finite {scope scope' : Scope String}
    (hscope : ∀ v y, scope v = some y → y.isFinite → scope' v = some y) {source : String}
    {x : Float} (h : evaluate scope source = .ok x) : evaluate scope' source = .ok x := by
  obtain ⟨t, ht, hx⟩ := Except.bind_eq_ok.mp h
  exact Except.bind_eq_ok.mpr ⟨t, ht, Term.eval_of_finite hscope hx⟩

end SystemDynamics.Equation
