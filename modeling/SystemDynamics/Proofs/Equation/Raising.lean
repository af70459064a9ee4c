import SystemDynamics.Proofs.Equation.Renaming

namespace SystemDynamics.Equation

/-- What a fault says, but for how it spells the variable that it names. -/
def Fault.nameless (fault : Fault) : Fault :=
  fault.respell fun _ ↦ ""

namespace Term

variable {ν μ ε : Type}

def operands : Term ν → List (Term ν)
  | number _ | var _ => []
  | signed _ t => [t]
  | binary _ l r => [l, r]
  | call _ ts => ts

theorem operand_induction {motive : Term ν → Prop}
    (h : ∀ t, (∀ u ∈ t.operands, motive u) → motive t) (t : Term ν) : motive t := by
  induction t using Term.induction with
  | number x => exact h _ (by simp [operands])
  | var v => exact h _ (by simp [operands])
  | signed s t ih => exact h _ (by simpa [operands] using ih)
  | binary op l r ihl ihr => exact h _ (by simpa [operands] using ⟨ihl, ihr⟩)
  | call g ts ih => exact h _ ih

theorem names_subset {t u : Term ν} (h : u ∈ t.operands) : u.names ⊆ t.names := by
  cases t with
  | number x => simp [operands] at h
  | var v => simp [operands] at h
  | signed s t =>
    obtain rfl := List.mem_singleton.mp h
    exact List.Subset.refl _
  | binary op l r =>
    rw [names]
    rcases List.mem_pair.mp h with rfl | rfl
    · exact List.subset_append_left _ _
    · exact List.subset_append_right _ _
  | call g ts =>
    rw [names, namesAll_eq]
    exact fun v hv ↦ List.mem_flatMap.mpr ⟨u, h, hv⟩

section

variable (spell : ν → String) (scope : Scope ν)

/-- The operands whose values a term needs, with their numbers. Of a choice these are the condition
and, once it has a value, the branch that it takes. -/
def needed : Term ν → List (Term ν × Nat)
  | call .ifThenElse (c :: t :: e :: _) =>
    (c, 0) :: (c.eval spell scope).toOption.toList.map fun x ↦ if x != 0 then (t, 1) else (e, 2)
  | call .ifThenElse _ => []
  | t => t.operands.zipIdx

/-- The values that a term needs, up to the first operand that has none. -/
def values (t : Term ν) : Except Fault (List Float) :=
  (t.needed spell scope).mapM fun o ↦ o.1.eval spell scope

/-- A fault of a term is raised by a subterm, to which the numbers of the operands lead: the subterm
faults though all that it needs has values, and so has all that is needed before it. -/
inductive RaisedAt (fault : Fault) : Term ν → List Nat → Term ν → Prop
  | here {t : Term ν} {xs : List Float} (h : t.eval spell scope = .error fault)
    (hvalues : t.values spell scope = .ok xs) : RaisedAt fault t [] t
  | under {t u s : Term ν} {before after : List (Term ν × Nat)} {i : Nat} {place : List Nat}
    (hneeded : t.needed spell scope = before ++ (u, i) :: after)
    (hbefore : ∀ o ∈ before, ∃ x, o.1.eval spell scope = .ok x)
    (h : RaisedAt fault u place s) : RaisedAt fault t (i :: place) s

end

variable {spell : ν → String} {scope : Scope ν}

theorem needed_call {g : Builtin} (hg : g ≠ .ifThenElse) (ts : List (Term ν)) :
    (call g ts).needed spell scope = ts.zipIdx := by
  cases g <;> first | rfl | contradiction

theorem mem_operands_of_needed {t : Term ν} {o : Term ν × Nat} (h : o ∈ t.needed spell scope) :
    o.1 ∈ t.operands := by
  unfold needed at h
  split at h
  case h_1 c t e ts =>
    rcases List.mem_cons.mp h with rfl | h
    · simp [operands]
    · obtain ⟨x, -, rfl⟩ := List.mem_map.mp h
      split <;> simp [operands]
  case h_2 => simp at h
  case h_3 => exact List.fst_mem_of_mem_zipIdx h

theorem mapM_zipIdx (ts : List (Term ν)) :
    (ts.zipIdx.mapM fun o ↦ o.1.eval spell scope) = ts.mapM (eval spell scope) := by
  conv_rhs => rw [← List.zipIdx_map_fst 0 ts, List.mapM_map]
  rfl

theorem values_eq_error {t : Term ν} {fault : Fault} :
    t.values spell scope = .error fault ↔ ∃ before o after,
      t.needed spell scope = before ++ o :: after ∧
        (∀ o ∈ before, ∃ x, o.1.eval spell scope = .ok x) ∧
          o.1.eval spell scope = .error fault :=
  Except.mapM_eq_error

theorem eval_choice_of_values {c t e : Term ν} {ts : List (Term ν)} {fault : Fault}
    (h : (call .ifThenElse (c :: t :: e :: ts)).values spell scope = .error fault) :
    (call .ifThenElse (c :: t :: e :: ts)).eval spell scope = .error fault := by
  rw [eval]
  rcases Except.mapM_cons_eq_error.mp h with hc | ⟨⟨x, hx⟩, hbranch⟩
  · rw [hc]
    rfl
  · rw [hx] at hbranch ⊢
    have hbranch := Except.mapM_singleton_eq_error.mp hbranch
    rw [Except.ok_bind, ← hbranch]
    dsimp only
    split <;> rfl

theorem eval_of_values {t : Term ν} {fault : Fault} (h : t.values spell scope = .error fault) :
    t.eval spell scope = .error fault := by
  cases t with
  | number x => simp [values, needed, operands, pure, Except.pure] at h
  | var v => simp [values, needed, operands, pure, Except.pure] at h
  | signed s t =>
    rw [eval, Except.mapM_singleton_eq_error.mp h]
    rfl
  | binary op l r =>
    rw [eval]
    rcases Except.mapM_cons_eq_error.mp h with hl | ⟨⟨a, ha⟩, hr⟩
    · rw [hl]
      rfl
    · rw [ha, Except.ok_bind, Except.mapM_singleton_eq_error.mp hr]
      rfl
  | call g ts =>
    by_cases hg : g = .ifThenElse
    · subst hg
      -- with fewer than three operands a choice needs none
      rcases ts with _ | ⟨c, _ | ⟨t, _ | ⟨e, ts⟩⟩⟩
      iterate 3 simp [values, needed, pure, Except.pure] at h
      exact eval_choice_of_values h
    · rw [values, needed_call hg, mapM_zipIdx] at h
      rw [eval_call, outcome_of_ne hg, List.mapM_map]
      exact Except.bind_eq_error.mpr (.inl h)

variable {fault : Fault} {t s : Term ν} {place : List Nat}

theorem exists_raisedAt (h : t.eval spell scope = .error fault) :
    ∃ place s, RaisedAt spell scope fault t place s := by
  induction t using operand_induction with
  | h t ih =>
    cases hvalues : t.values spell scope with
    | ok xs => exact ⟨[], t, .here h hvalues⟩
    | error fault' =>
      obtain rfl := Except.error.inj ((eval_of_values hvalues).symm.trans h)
      obtain ⟨before, o, after, hneeded, hbefore, ho⟩ := values_eq_error.mp hvalues
      have hmem : o ∈ t.needed spell scope := by
        rw [hneeded]
        simp
      obtain ⟨place, s, hraised⟩ := ih o.1 (mem_operands_of_needed hmem) ho
      exact ⟨o.2 :: place, s, .under hneeded hbefore hraised⟩

theorem RaisedAt.eval_eq (h : RaisedAt spell scope fault t place s) :
    t.eval spell scope = .error fault := by
  induction h with
  | here h => exact h
  | under hneeded hbefore _ ih =>
    exact eval_of_values (values_eq_error.mpr ⟨_, _, _, hneeded, hbefore, ih⟩)

theorem eq_of_first {α : Type} {P : α → Prop} {before before' after after' : List α} {a a' : α}
    (h : before ++ a :: after = before' ++ a' :: after') (hbefore : ∀ b ∈ before, P b)
    (hbefore' : ∀ b ∈ before', P b) (ha : ¬P a) (ha' : ¬P a') : a = a' := by
  induction before generalizing before' with
  | nil =>
    cases before' with
    | nil => exact (List.cons.inj h).1
    | cons b before' => exact absurd (hbefore' _ List.mem_cons_self) ((List.cons.inj h).1 ▸ ha)
  | cons b before ih =>
    cases before' with
    | nil => exact absurd (hbefore _ List.mem_cons_self) ((List.cons.inj h).1 ▸ ha')
    | cons b' before' =>
      exact ih (List.cons.inj h).2 (List.forall_mem_cons.mp hbefore).2
        (List.forall_mem_cons.mp hbefore').2

theorem RaisedAt.unique {s' : Term ν} {place' : List Nat}
    (h : RaisedAt spell scope fault t place s) (h' : RaisedAt spell scope fault t place' s') :
    place' = place ∧ s' = s := by
  have hnone : ∀ {u place s}, RaisedAt spell scope fault u place s →
      ¬∃ x, u.eval spell scope = .ok x := by
    intro u place s h hx
    obtain ⟨x, hx⟩ := hx
    cases h.eval_eq.symm.trans hx
  induction h generalizing place' with
  | here _ hvalues =>
    cases h' with
    | here => exact ⟨rfl, rfl⟩
    | under hneeded hbefore h' =>
      have hfails := values_eq_error.mpr ⟨_, _, _, hneeded, hbefore, h'.eval_eq⟩
      cases hvalues.symm.trans hfails
  | under hneeded hbefore h ih =>
    cases h' with
    | here _ hvalues =>
      have hfails := values_eq_error.mpr ⟨_, _, _, hneeded, hbefore, h.eval_eq⟩
      cases hvalues.symm.trans hfails
    | under hneeded' hbefore' h' =>
      have heq := eq_of_first (hneeded'.symm.trans hneeded) hbefore' hbefore (hnone h') (hnone h)
      obtain ⟨rfl, rfl⟩ := Prod.mk.inj heq
      obtain ⟨rfl, rfl⟩ := ih h'
      exact ⟨rfl, rfl⟩

theorem forall₂_zipIdx {α β : Type} {R : α → β → Prop} {as : List α} {bs : List β}
    (h : List.Forall₂ R as bs) (n : Nat) :
    List.Forall₂ (fun o o' ↦ R o.1 o'.1 ∧ o'.2 = o.2) (as.zipIdx n) (bs.zipIdx n) := by
  induction h generalizing n with
  | nil => exact .nil
  | cons hab _ ih => exact .cons ⟨hab, rfl⟩ (ih (n + 1))

theorem exists_of_forall₂_append {α β : Type} {R : α → β → Prop} {before after : List α} {a : α}
    {bs : List β} (h : List.Forall₂ R (before ++ a :: after) bs) :
    ∃ before' b after', bs = before' ++ b :: after' ∧ List.Forall₂ R before before' ∧ R a b := by
  induction before generalizing bs with
  | nil =>
    cases h with
    | cons hab _ => exact ⟨[], _, _, rfl, .nil, hab⟩
  | cons c before ih =>
    cases h with
    | cons hcd h =>
      obtain ⟨before', b, after', rfl, hbefore, hab⟩ := ih h
      exact ⟨_ :: before', b, after', rfl, .cons hcd hbefore, hab⟩

section

variable {f : ν → Except ε μ} {spell' : μ → String} {scope' : Scope μ}

/-- The names of a term have in one scope the values that their new names have in another. -/
def Carries (f : ν → Except ε μ) (scope : Scope ν) (scope' : Scope μ) (t : Term ν) : Prop :=
  ∀ v ∈ t.names, ∀ w, f v = .ok w → scope' w = scope v

theorem Carries.operand {u : Term ν} (h : Carries f scope scope' t) (hu : u ∈ t.operands) :
    Carries f scope scope' u :=
  fun v hv ↦ h v (names_subset hu hv)

theorem rename_ok (t : Term ν) : t.rename (ε := ε) .ok = .ok t := by
  induction t using Term.induction with
  | number x => rfl
  | var v => rfl
  | signed s t ih =>
    rw [rename, ih]
    rfl
  | binary op l r ihl ihr =>
    rw [rename, ihl, ihr]
    rfl
  | call g ts ih =>
    rw [rename, renameAll_eq, Except.mapM_eq_ok_map (g := id) ih, List.map_id]
    rfl

theorem eval_nameless (t : Term ν) :
    t.eval (fun _ ↦ "") scope = (t.eval spell scope).mapError Fault.nameless :=
  eval_rename_respell (rename_ok (ε := Empty) t) fun v _ w hw ↦ by
    obtain rfl := Except.ok.inj hw
    exact ⟨rfl, rfl⟩

variable {t' : Term μ} (h : t.rename f = .ok t') (hscope : Carries f scope scope' t)

include h hscope

theorem eval_rename_nameless : (t'.eval spell' scope').mapError Fault.nameless =
    (t.eval spell scope).mapError Fault.nameless := by
  rw [← eval_nameless]
  exact eval_rename_respell h fun v hv w hw ↦ ⟨hscope v hv w hw, rfl⟩

theorem eval_rename_eq_ok {x : Float} :
    t'.eval spell' scope' = .ok x ↔ t.eval spell scope = .ok x := by
  rw [← Except.mapError_eq_ok (f := Fault.nameless), eval_rename_nameless h hscope,
    Except.mapError_eq_ok]

theorem exists_eval_rename_eq_error (hfault : t.eval spell scope = .error fault) :
    ∃ fault', t'.eval spell' scope' = .error fault' ∧ fault'.nameless = fault.nameless := by
  have heq : (t'.eval spell' scope').mapError Fault.nameless =
      (t.eval spell scope).mapError Fault.nameless := eval_rename_nameless h hscope
  rw [hfault, Except.mapError] at heq
  obtain ⟨fault', hfault', hname⟩ := Except.mapError_eq_error.mp heq
  exact ⟨fault', hfault', hname.symm⟩

omit hscope in
theorem mapM_operands : t.operands.mapM (rename f) = .ok t'.operands := by
  cases t with
  | number x =>
    obtain rfl := Except.ok.inj h
    rfl
  | var v =>
    obtain ⟨w, -, h⟩ := Except.bind_eq_ok.mp h
    obtain rfl := Except.pure_eq_ok.mp h
    rfl
  | signed s t =>
    obtain ⟨u, hu, h⟩ := Except.bind_eq_ok.mp h
    obtain rfl := Except.pure_eq_ok.mp h
    rw [operands, List.mapM_cons, hu]
    rfl
  | binary op l r =>
    obtain ⟨l', hl, h⟩ := Except.bind_eq_ok.mp h
    obtain ⟨r', hr, h⟩ := Except.bind_eq_ok.mp h
    obtain rfl := Except.pure_eq_ok.mp h
    rw [operands, List.mapM_cons, List.mapM_cons, hl, hr]
    rfl
  | call g ts =>
    obtain ⟨ts', hts, h⟩ := Except.bind_eq_ok.mp h
    obtain rfl := Except.pure_eq_ok.mp h
    rwa [renameAll_eq] at hts

def RenamesTo (f : ν → Except ε μ) (o : Term ν × Nat) (o' : Term μ × Nat) : Prop :=
  o.1.rename f = .ok o'.1 ∧ o'.2 = o.2

theorem needed_rename :
    List.Forall₂ (RenamesTo f) (t.needed spell scope) (t'.needed spell' scope') := by
  have hoperands := Except.mapM_eq_ok.mp (mapM_operands h)
  cases t with
  | number x =>
    obtain rfl := Except.ok.inj h
    exact forall₂_zipIdx hoperands 0
  | var v =>
    obtain ⟨w, -, h⟩ := Except.bind_eq_ok.mp h
    obtain rfl := Except.pure_eq_ok.mp h
    exact forall₂_zipIdx hoperands 0
  | signed s t =>
    obtain ⟨u, -, h⟩ := Except.bind_eq_ok.mp h
    obtain rfl := Except.pure_eq_ok.mp h
    exact forall₂_zipIdx hoperands 0
  | binary op l r =>
    obtain ⟨l', -, h⟩ := Except.bind_eq_ok.mp h
    obtain ⟨r', -, h⟩ := Except.bind_eq_ok.mp h
    obtain rfl := Except.pure_eq_ok.mp h
    exact forall₂_zipIdx hoperands 0
  | call g ts =>
    obtain ⟨ts', -, h⟩ := Except.bind_eq_ok.mp h
    obtain rfl := Except.pure_eq_ok.mp h
    by_cases hg : g = .ifThenElse
    · subst hg
      cases hoperands with
      | nil => exact .nil
      | @cons c c' _ _ hc hoperands =>
        cases hoperands with
        | nil => exact .nil
        | cons ht hoperands =>
          cases hoperands with
          | nil => exact .nil
          | cons he hoperands =>
            have hvalue : (c'.eval spell' scope').toOption = (c.eval spell scope).toOption := by
              have hcondition : (c'.eval spell' scope').mapError Fault.nameless =
                  (c.eval spell scope).mapError Fault.nameless :=
                eval_rename_nameless hc (hscope.operand (by simp [operands]))
              rw [← Except.toOption_mapError Fault.nameless, hcondition, Except.toOption_mapError]
            refine .cons ⟨hc, rfl⟩ ?_
            rw [hvalue]
            cases (c.eval spell scope).toOption with
            | none => exact .nil
            | some x =>
              refine .cons ?_ .nil
              dsimp only
              split
              · exact ⟨ht, rfl⟩
              · exact ⟨he, rfl⟩
    · rw [needed_call hg, needed_call hg]
      exact forall₂_zipIdx hoperands 0

omit h in
theorem exists_values_rename {os : List (Term ν × Nat)} {os' : List (Term μ × Nat)}
    (hos : List.Forall₂ (RenamesTo f) os os')
    (hmem : ∀ o ∈ os, o.1 ∈ t.operands) (hvalues : ∀ o ∈ os, ∃ x, o.1.eval spell scope = .ok x) :
    ∀ o' ∈ os', ∃ x, o'.1.eval spell' scope' = .ok x := by
  induction hos with
  | nil => simp
  | cons ho _ ih =>
    rw [List.forall_mem_cons] at hmem hvalues ⊢
    refine ⟨?_, ih hmem.2 hvalues.2⟩
    obtain ⟨x, hx⟩ := hvalues.1
    exact ⟨x, (eval_rename_eq_ok ho.1 (hscope.operand hmem.1)).mpr hx⟩

end

/-- A renamed term raises its fault where the term raises its own. -/
theorem RaisedAt.renamed {f : ν → Except ε μ} {spell' : μ → String} {scope' : Scope μ}
    (h : RaisedAt spell scope fault t place s) {t' : Term μ} (ht : t.rename f = .ok t')
    (hscope : Carries f scope scope' t) {fault' : Fault}
    (hfault : t'.eval spell' scope' = .error fault') :
    ∃ s', s.rename f = .ok s' ∧ RaisedAt spell' scope' fault' t' place s' := by
  induction h generalizing t' fault' with
  | @here t xs _ hvalues =>
    have hneeded : List.Forall₂ (RenamesTo f) (t.needed spell scope) (t'.needed spell' scope') :=
      needed_rename ht hscope
    have hall : ∀ o' ∈ t'.needed spell' scope', ∃ x, o'.1.eval spell' scope' = .ok x :=
      exists_values_rename hscope hneeded (fun o ↦ mem_operands_of_needed)
        (Except.exists_mapM_eq_ok_iff.mp ⟨xs, hvalues⟩)
    obtain ⟨xs', hvalues'⟩ := Except.exists_mapM_eq_ok_iff.mpr hall
    exact ⟨t', ht, .here hfault hvalues'⟩
  | @under t u s before after i place hneeded hbefore hu ih =>
    have hneeded' : List.Forall₂ (RenamesTo f) (t.needed spell scope) (t'.needed spell' scope') :=
      needed_rename ht hscope
    have hmem : ∀ o ∈ before ++ (u, i) :: after, o.1 ∈ t.operands := fun o ho ↦
      mem_operands_of_needed (hneeded ▸ ho)
    have hu' := hscope.operand (hmem (u, i) (by simp))
    rw [hneeded] at hneeded'
    obtain ⟨before', ⟨u', i'⟩, after', hsplit, hall, hrename, hi⟩ :=
      exists_of_forall₂_append hneeded'
    obtain rfl : i' = i := hi
    have hbefore' : ∀ o' ∈ before', ∃ x, o'.1.eval spell' scope' = .ok x :=
      exists_values_rename hscope hall (fun o ho ↦ hmem o (List.mem_append_left _ ho)) hbefore
    obtain ⟨fault'', hfault'', -⟩ : ∃ fault'', u'.eval spell' scope' = .error fault'' ∧
        fault''.nameless = fault.nameless := exists_eval_rename_eq_error hrename hu' hu.eval_eq
    have hfails := eval_of_values (values_eq_error.mpr ⟨_, _, _, hsplit, hbefore', hfault''⟩)
    obtain rfl := Except.error.inj (hfails.symm.trans hfault)
    obtain ⟨s', hs', hraised⟩ := ih hrename hu' hfault''
    exact ⟨s', hs', .under hsplit hbefore' hraised⟩

theorem rename_eq_error [BEq ν] [LawfulBEq ν] {f : ν → Except ε μ} {t : Term ν} {e : ε} :
    t.rename f = .error e ↔ ∃ before v after, t.distinctNames = before ++ v :: after ∧
      (∀ u ∈ before, ∃ w, f u = .ok w) ∧ f v = .error e := by
  rw [← Except.mapM_eq_error, distinctNames, Except.mapM_eraseDups_eq_error, ← names_rename,
    Except.map_eq_error]

/-- A renamed term comes to the same value as the term, or to the same fault but for the spelling of
a variable, and then both faults are raised at one place and nowhere else, by subterms of which one
is the other renamed. -/
structure Alike (f : ν → Except ε μ) (spell : ν → String) (scope : Scope ν)
    (spell' : μ → String) (scope' : Scope μ) (t : Term ν) (t' : Term μ) : Prop where
  value (x : Float) : t'.eval spell' scope' = .ok x ↔ t.eval spell scope = .ok x
  fault (fault : Fault) (h : t.eval spell scope = .error fault) :
    ∃ fault' place s s', t'.eval spell' scope' = .error fault' ∧
      fault'.nameless = fault.nameless ∧ s.rename f = .ok s' ∧
      (∀ q u, RaisedAt spell scope fault t q u ↔ q = place ∧ u = s) ∧
      ∀ q u, RaisedAt spell' scope' fault' t' q u ↔ q = place ∧ u = s'

/-- A term can be renamed just when all its names have new ones, and otherwise the first that has
none decides how renaming fails. A renamed term evaluates as the term does. -/
theorem renamed_term_evaluates_alike [DecidableEq ν] (t : Term ν) (f : ν → Except ε μ)
    (spell : ν → String) (spell' : μ → String) (scope : Scope ν) (scope' : Scope μ)
    (hscope : ∀ v ∈ t.distinctNames, ∀ w, f v = .ok w → scope' w = scope v) :
    ((∃ t', t.rename f = .ok t') ↔ ∀ v ∈ t.distinctNames, ∃ w, f v = .ok w) ∧
      (∀ e, t.rename f = .error e ↔ ∃ before v after, t.distinctNames = before ++ v :: after ∧
        (∀ u ∈ before, ∃ w, f u = .ok w) ∧ f v = .error e) ∧
      ∀ t', t.rename f = .ok t' → Alike f spell scope spell' scope' t t' := by
  have hnames : ∀ v, v ∈ t.distinctNames ↔ v ∈ t.names := fun v ↦ List.mem_eraseDups
  simp only [hnames] at hscope
  refine ⟨?_, fun e ↦ rename_eq_error, fun t' ht ↦ ⟨fun x ↦ eval_rename_eq_ok ht hscope, ?_⟩⟩
  · simp only [exists_rename_eq_ok_iff, hnames]
  · intro fault hfault
    obtain ⟨place, s, hs⟩ := exists_raisedAt hfault
    obtain ⟨fault', hfault', hname⟩ := exists_eval_rename_eq_error ht hscope hfault
    obtain ⟨s', hrename, hs'⟩ := hs.renamed ht hscope hfault'
    refine ⟨fault', place, s, s', hfault', hname, hrename, fun q u ↦ ⟨hs.unique, ?_⟩,
      fun q u ↦ ⟨hs'.unique, ?_⟩⟩
    · intro h
      rwa [h.1, h.2]
    · intro h
      rwa [h.1, h.2]

/-- A choice that takes a branch with a quotient, and leaves one with a name that has no value. -/
def guardedRatio : Term String :=
  .call .ifThenElse [.var "demand", .binary .div (.number 1) (.var "supply"), .var "reserve"]

def placeIn (names : List String) (name : String) : Except String Nat :=
  (names.idxOf? name).elim (.error name) .ok

theorem lookup_placeIn (names : List String) (xs : List Float) (name : String) (i : Nat)
    (h : placeIn names name = .ok i) : xs[i]? = (names.idxOf? name).bind (xs[·]?) := by
  rw [placeIn] at h
  cases hname : names.idxOf? name with
  | none => simp [hname] at h
  | some j =>
    obtain rfl : j = i := by simpa [hname] using h
    rfl

/-- The quotient by zero is met under the names and under the numbers in their stead. -/
theorem renamed_term_evaluates_alike_ratio :
    let names := ["demand", "supply", "reserve"]
    let scope : Scope String := fun name ↦ (names.idxOf? name).bind ([1, 0][·]?)
    let scope' : Scope Nat := ([1, 0][·]?)
    (∀ v ∈ guardedRatio.distinctNames, ∀ w, placeIn names v = .ok w → scope' w = scope v) ∧
      guardedRatio.eval id scope = .error (.undefined (.quotient 1)) ∧
      ∃ t', guardedRatio.rename (placeIn names) = .ok t' ∧
        Alike (placeIn names) id scope toString scope' guardedRatio t' := by
  intro names scope scope'
  have hscope : ∀ v ∈ guardedRatio.distinctNames, ∀ w, placeIn names v = .ok w →
      scope' w = scope v := fun v _ w ↦ lookup_placeIn names [1, 0] v w
  obtain ⟨-, -, halike⟩ :=
    renamed_term_evaluates_alike guardedRatio (placeIn names) id toString scope scope' hscope
  exact ⟨hscope, by decide +kernel, _, rfl, halike _ rfl⟩

end Term

end SystemDynamics.Equation
