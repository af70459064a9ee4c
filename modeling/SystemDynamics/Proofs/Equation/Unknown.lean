import SystemDynamics.Proofs.Equation.Leaves

namespace SystemDynamics.Equation

def IsUnknown (name : String) (lexemes : List Lexeme) : Prop :=
  .name name ∈ leavesOf lexemes ∧ Builtin.ofName? name = none

/-- A parser that reports no other functions as unknown. -/
def ReportsUnknown (deeper : Level) : Prop :=
  ∀ least lexemes name, deeper least lexemes = .error (.unknown name) → IsUnknown name lexemes

section

variable {stop : Nat} {deeper : Level} {name : String} {lexemes : List Lexeme}

theorem IsUnknown.of_rest {rest : List Lexeme} {leaves : List Token} (h : IsUnknown name rest)
    (hl : leaves ++ leavesOf rest = leavesOf lexemes) : IsUnknown name lexemes :=
  ⟨hl ▸ List.mem_append_right _ h.1, h.2⟩

theorem IsUnknown.cons {l : Lexeme} (h : IsUnknown name lexemes) :
    IsUnknown name (l :: lexemes) := by
  refine ⟨?_, h.2⟩
  have hl := h.1
  simp only [leavesOf, List.map_cons, List.filter_cons] at hl ⊢
  split
  · exact List.mem_cons_of_mem _ hl
  · exact hl

theorem expect_ne_unknown {token : Token} {context : String} :
    expect stop token context lexemes ≠ .error (.unknown name) := by
  cases lexemes with
  | nil => simp [expect, refuse]
  | cons l rest =>
    simp only [expect]
    split <;> simp [refuse]

theorem checkHeight_ne_unknown {height : Nat} :
    checkHeight stop height lexemes ≠ .error (.unknown name) := by
  simp only [checkHeight]
  split <;> simp [refuse]

theorem arguments_unknown (hd : KeepsLeaves deeper) (hu : ReportsUnknown deeper) {fuel : Nat}
    (h : arguments stop deeper fuel lexemes = .error (.unknown name)) : IsUnknown name lexemes := by
  induction fuel generalizing lexemes with
  | zero => simp [arguments, refuse] at h
  | succ fuel ih =>
    rcases Except.bind_eq_error.mp h with h | ⟨first, hfirst, h⟩
    · exact hu _ _ _ h
    · refine IsUnknown.of_rest ?_ (hd _ _ _ hfirst)
      split at h
      case h_1 => simp [refuse] at h
      case h_2 l rest hrest =>
        rw [hrest]
        split at h
        case h_1 =>
          rcases Except.bind_eq_error.mp h with h | ⟨others, -, h⟩
          · exact (ih h).cons
          · simp [pure, Except.pure] at h
        case h_2 => simp [pure, Except.pure] at h
        case h_3 => simp [refuse] at h

theorem argumentList_unknown (hd : KeepsLeaves deeper) (hu : ReportsUnknown deeper)
    (h : argumentList stop deeper lexemes = .error (.unknown name)) : IsUnknown name lexemes := by
  simp only [argumentList] at h
  split at h
  case h_1 => simp at h
  case h_2 => exact arguments_unknown hd hu h

theorem call_unknown (hd : KeepsLeaves deeper) (hu : ReportsUnknown deeper) {function : String}
    {offset : Nat} (h : call stop deeper function offset lexemes = .error (.unknown name)) :
    (name = function ∧ Builtin.ofName? function = none) ∨ IsUnknown name lexemes := by
  simp only [call] at h
  split at h
  case h_1 hf =>
    have he : function = name := by simpa using h
    exact .inl ⟨he.symm, hf⟩
  case h_2 f hf =>
    right
    rcases Except.bind_eq_error.mp h with h | ⟨rest, hrest, h⟩
    · exact absurd h expect_ne_unknown
    · obtain ⟨l, hl, -⟩ := expect_eq_ok hrest
      rw [hl]
      refine IsUnknown.cons ?_
      rcases Except.bind_eq_error.mp h with h | ⟨args, -, h⟩
      · exact argumentList_unknown hd hu h
      · split at h
        case isFalse => simp at h
        case isTrue =>
          rcases Except.bind_eq_error.mp h with h | ⟨height, -, h⟩
          · exact absurd h checkHeight_ne_unknown
          · simp [pure, Except.pure] at h

theorem atom_unknown (hd : KeepsLeaves deeper) (hu : ReportsUnknown deeper)
    (h : atom stop deeper lexemes = .error (.unknown name)) : IsUnknown name lexemes := by
  cases lexemes with
  | nil => simp [atom, refuse] at h
  | cons l rest =>
    simp only [atom] at h
    split at h
    case h_1 => simp at h
    case h_2 s hs =>
      split at h
      case h_1 =>
        rcases call_unknown hd hu h with ⟨rfl, hf⟩ | h
        · refine ⟨?_, hf⟩
          rw [leavesOf_cons_leaf _ (by rw [hs]; rfl), hs]
          exact List.mem_cons_self
        · exact h.cons
      case h_2 => simp at h
    case h_3 =>
      rcases Except.bind_eq_error.mp h with h | ⟨inner, hinner, h⟩
      · exact (hu _ _ _ h).cons
      · rcases Except.bind_eq_error.mp h with h | ⟨closed, -, h⟩
        · exact absurd h expect_ne_unknown
        · simp [pure, Except.pure] at h
    case h_4 => simp [refuse] at h

theorem operand_unknown (hd : KeepsLeaves deeper) (hu : ReportsUnknown deeper)
    (h : operand stop deeper lexemes = .error (.unknown name)) : IsUnknown name lexemes := by
  simp only [operand] at h
  split at h
  case h_1 => exact atom_unknown hd hu h
  case h_2 sign hsign =>
    cases lexemes with
    | nil => simp at hsign
    | cons l rest =>
      rcases Except.bind_eq_error.mp h with h | ⟨inner, -, h⟩
      · exact (hu _ _ _ h).cons
      · rcases Except.bind_eq_error.mp h with h | ⟨height, -, h⟩
        · exact absurd h checkHeight_ne_unknown
        · simp [pure, Except.pure] at h

theorem operators_unknown (hd : KeepsLeaves deeper) (hu : ReportsUnknown deeper)
    {least fuel : Nat} {compared : Bool} {left : Parsed (Term String)}
    (h : operators stop deeper least fuel compared left = .error (.unknown name)) :
    IsUnknown name left.rest := by
  induction fuel generalizing compared left with
  | zero => simp [operators] at h
  | succ fuel ih =>
    simp only [operators] at h
    split at h
    case h_1 => simp at h
    case h_2 l rest hrest =>
      rw [hrest]
      refine IsUnknown.cons ?_
      split at h
      case h_1 => simp at h
      case h_2 =>
        split at h
        case isTrue => simp at h
        case isFalse =>
          split at h
          case isTrue => simp [refuse] at h
          case isFalse =>
            rcases Except.bind_eq_error.mp h with h | ⟨right, hright, h⟩
            · exact hu _ _ _ h
            · rcases Except.bind_eq_error.mp h with h | ⟨height, -, h⟩
              · exact absurd h checkHeight_ne_unknown
              · have hleaves := hd _ _ _ hright
                exact (ih h).of_rest hleaves

theorem level_unknown (levels : Nat) : ReportsUnknown (level stop levels) := by
  induction levels with
  | zero =>
    intro least lexemes name h
    simp [level, refuse] at h
  | succ levels ih =>
    intro least lexemes name h
    have hd : KeepsLeaves (level stop levels) := level_leaves levels
    rcases Except.bind_eq_error.mp h with h | ⟨left, hleft, h⟩
    · exact operand_unknown hd ih h
    · exact (operators_unknown hd ih h).of_rest (operand_leaves hd hleft)

end

theorem lexemes_ne_unknown {covered offset : Nat} {text : List Char} {name : String} :
    lexemes covered offset text ≠ .error (.unknown name) := by
  induction text generalizing covered offset with
  | nil => simp [lexemes]
  | cons c rest ih =>
    cases covered with
    | succ covered => exact ih
    | zero =>
      simp only [lexemes]
      split
      case isTrue => exact ih
      case isFalse =>
        split
        case h_1 => simp
        case h_2 =>
          intro h
          rcases Except.bind_eq_error.mp h with h | ⟨later, -, h⟩
          · exact ih h
          · simp [pure, Except.pure] at h

theorem parse_unknown {source name : String} (h : parse source = .error (.unknown name)) :
    (∃ names, identifiers source = .ok names ∧ name ∈ names) ∧ Builtin.ofName? name = none := by
  rcases Except.bind_eq_error.mp h with h | ⟨lexemes, hlexemes, h⟩
  · exact absurd h lexemes_ne_unknown
  have hunknown : IsUnknown name lexemes := by
    simp only [parseLexemes] at h
    split at h
    case isTrue => simp at h
    case isFalse =>
      rcases Except.bind_eq_error.mp h with h | ⟨parsed, hparsed, h⟩
      · exact level_unknown _ _ _ _ h
      · split at h <;> simp [refuse, pure, Except.pure] at h
  obtain ⟨hmem, hnone⟩ := hunknown
  refine ⟨⟨lexemes.filterMap (·.token.name?), by rw [identifiers, hlexemes]; rfl, ?_⟩, hnone⟩
  rw [leavesOf, List.mem_filter, List.mem_map] at hmem
  obtain ⟨⟨l, hl, ht⟩, -⟩ := hmem
  exact List.mem_filterMap.mpr ⟨l, hl, by rw [ht]; rfl⟩

end SystemDynamics.Equation
