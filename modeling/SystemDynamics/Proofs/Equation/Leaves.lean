import SystemDynamics.Proofs.Equation.Term

namespace SystemDynamics.Equation

def Token.isLeaf : Token → Bool
  | number _ | name _ => true
  | _ => false

def leavesOf (lexemes : List Lexeme) : List Token :=
  (lexemes.map (·.token)).filter Token.isLeaf

theorem leavesOf_cons_leaf {l : Lexeme} (rest : List Lexeme) (h : l.token.isLeaf) :
    leavesOf (l :: rest) = l.token :: leavesOf rest := by
  simp [leavesOf, h]

theorem leavesOf_cons_other {l : Lexeme} (rest : List Lexeme) (h : l.token.isLeaf = false) :
    leavesOf (l :: rest) = leavesOf rest := by
  simp [leavesOf, h]

namespace Term

mutual

/-- The numerals and the names of a term, the name of a function before those of its arguments. -/
def leaves : Term String → List Token
  | number x => [.number x]
  | var v => [.name v]
  | signed _ t => t.leaves
  | binary _ l r => l.leaves ++ r.leaves
  | call f ts => .name f.name :: leavesAll ts

def leavesAll : List (Term String) → List Token
  | [] => []
  | t :: ts => t.leaves ++ leavesAll ts

end

theorem leavesAll_eq (ts : List (Term String)) : leavesAll ts = ts.flatMap leaves := by
  induction ts with
  | nil => rfl
  | cons t ts ih => rw [leavesAll, ih, List.flatMap_cons]

mutual

/-- The words of a term: its names and those of the functions it calls, the name of a function
before the words of its arguments. -/
def words : Term String → List String
  | number _ => []
  | var v => [v]
  | signed _ t => t.words
  | binary _ l r => l.words ++ r.words
  | call f ts => f.name :: wordsAll ts

def wordsAll : List (Term String) → List String
  | [] => []
  | t :: ts => t.words ++ wordsAll ts

end

theorem wordsAll_eq (ts : List (Term String)) : wordsAll ts = ts.flatMap words := by
  induction ts with
  | nil => rfl
  | cons t ts ih => rw [wordsAll, ih, List.flatMap_cons]

theorem words_eq (t : Term String) : t.words = t.leaves.filterMap Token.name? := by
  induction t using Term.induction with
  | number x => rfl
  | var v => rfl
  | signed s t ih => exact ih
  | binary op l r ihl ihr => rw [words, leaves, List.filterMap_append, ihl, ihr]
  | call f ts ih =>
    rw [words, leaves, wordsAll_eq, leavesAll_eq, List.filterMap_cons, List.filterMap_flatMap,
      List.flatMap_congr ih]
    rfl

theorem name_mem_leaves {t : Term String} {v : String} (h : v ∈ t.names) : .name v ∈ t.leaves := by
  induction t using Term.induction with
  | number x => simp [names] at h
  | var w => simpa [names, leaves] using h
  | signed s t ih => exact ih h
  | binary op l r ihl ihr =>
    rw [names, List.mem_append] at h
    rw [leaves, List.mem_append]
    exact h.imp ihl ihr
  | call f ts ih =>
    rw [names, namesAll_eq, List.mem_flatMap] at h
    obtain ⟨t, ht, hv⟩ := h
    rw [leaves, leavesAll_eq]
    exact List.mem_cons_of_mem _ (List.mem_flatMap.mpr ⟨t, ht, ih t ht hv⟩)

theorem mem_names_of_leaf {t : Term String} {v : String} (h : .name v ∈ t.leaves) :
    v ∈ t.names ∨ isBuiltin v = true := by
  induction t using Term.induction with
  | number x => simp [leaves] at h
  | var w => exact .inl (by simpa [names, leaves] using h)
  | signed s t ih => exact ih h
  | binary op l r ihl ihr =>
    rw [leaves, List.mem_append] at h
    rw [names, List.mem_append]
    rcases h with h | h
    · exact (ihl h).imp_left .inl
    · exact (ihr h).imp_left .inr
  | call f ts ih =>
    rw [leaves, leavesAll_eq, List.mem_cons, List.mem_flatMap] at h
    rw [names, namesAll_eq, List.mem_flatMap]
    rcases h with h | ⟨t, ht, hv⟩
    · obtain rfl := Token.name.inj h
      exact .inr (by simp [isBuiltin, Builtin.ofName?_name])
    · exact (ih t ht hv).imp_left fun hn ↦ ⟨t, ht, hn⟩

end Term

/-- A parser that loses no leaf. -/
def KeepsLeaves (deeper : Level) : Prop :=
  ∀ least lexemes p, deeper least lexemes = .ok p →
    p.result.leaves ++ leavesOf p.rest = leavesOf lexemes

section

variable {stop : Nat} {deeper : Level}

theorem expect_eq_ok {token : Token} {context : String} {lexemes rest : List Lexeme}
    (h : expect stop token context lexemes = .ok rest) :
    ∃ l, lexemes = l :: rest ∧ l.token = token := by
  cases lexemes with
  | nil => simp [expect, refuse] at h
  | cons l ls =>
    simp only [expect] at h
    split at h
    case isTrue ht => exact ⟨l, by simpa using h, ht⟩
    case isFalse => simp [refuse] at h

theorem expect_leaves {token : Token} {context : String} {lexemes rest : List Lexeme}
    (h : expect stop token context lexemes = .ok rest) (ht : token.isLeaf = false) :
    leavesOf rest = leavesOf lexemes := by
  obtain ⟨l, rfl, rfl⟩ := expect_eq_ok h
  exact (leavesOf_cons_other rest ht).symm

theorem arguments_leaves (hd : KeepsLeaves deeper) {fuel : Nat} {lexemes : List Lexeme}
    {p : Parsed (List (Term String))} (h : arguments stop deeper fuel lexemes = .ok p) :
    Term.leavesAll p.result ++ leavesOf p.rest = leavesOf lexemes := by
  induction fuel generalizing lexemes p with
  | zero => simp [arguments, refuse] at h
  | succ fuel ih =>
    simp only [arguments, Except.bind_eq_ok] at h
    obtain ⟨first, hfirst, h⟩ := h
    have hleaves := hd _ _ _ hfirst
    split at h
    case h_1 => simp [refuse] at h
    case h_2 l rest hrest =>
      split at h
      case h_1 htoken =>
        obtain ⟨others, hothers, h⟩ := Except.bind_eq_ok.mp h
        obtain rfl := Except.pure_eq_ok.mp h
        have hl : leavesOf first.rest = leavesOf rest := by
          rw [hrest, leavesOf_cons_other rest (by rw [htoken]; rfl)]
        rw [← hleaves, hl, ← ih hothers, Term.leavesAll, List.append_assoc]
      case h_2 htoken =>
        obtain rfl := Except.pure_eq_ok.mp h
        have hl : leavesOf first.rest = leavesOf rest := by
          rw [hrest, leavesOf_cons_other rest (by rw [htoken]; rfl)]
        rw [← hleaves, hl, Term.leavesAll, Term.leavesAll, List.append_nil]
      case h_3 => simp [refuse] at h

theorem argumentList_leaves (hd : KeepsLeaves deeper) {lexemes : List Lexeme}
    {p : Parsed (List (Term String))} (h : argumentList stop deeper lexemes = .ok p) :
    Term.leavesAll p.result ++ leavesOf p.rest = leavesOf lexemes := by
  simp only [argumentList] at h
  split at h
  case h_1 =>
    obtain rfl := Except.ok.inj h
    rfl
  case h_2 => exact arguments_leaves hd h

theorem ofName?_eq_some {name : String} {f : Builtin} (h : Builtin.ofName? name = some f) :
    f.name = name := by
  simpa using List.find?_some h

theorem call_leaves (hd : KeepsLeaves deeper) {name : String} {offset : Nat}
    {lexemes : List Lexeme} {p : Parsed (Term String)}
    (h : call stop deeper name offset lexemes = .ok p) :
    p.result.leaves ++ leavesOf p.rest = .name name :: leavesOf lexemes := by
  simp only [call] at h
  split at h
  case h_1 => simp at h
  case h_2 f hf =>
    obtain ⟨rest, hrest, h⟩ := Except.bind_eq_ok.mp h
    obtain ⟨args, hargs, h⟩ := Except.bind_eq_ok.mp h
    split at h
    case isFalse => simp at h
    case isTrue =>
      obtain ⟨height, -, h⟩ := Except.bind_eq_ok.mp h
      obtain rfl := Except.pure_eq_ok.mp h
      rw [← expect_leaves hrest rfl, ← argumentList_leaves hd hargs, Term.leaves,
        ofName?_eq_some hf, List.cons_append]

theorem atom_leaves (hd : KeepsLeaves deeper) {lexemes : List Lexeme} {p : Parsed (Term String)}
    (h : atom stop deeper lexemes = .ok p) :
    p.result.leaves ++ leavesOf p.rest = leavesOf lexemes := by
  cases lexemes with
  | nil => simp [atom, refuse] at h
  | cons l rest =>
    simp only [atom] at h
    split at h
    case h_1 x hx =>
      obtain rfl := Except.ok.inj h
      rw [leavesOf_cons_leaf rest (by rw [hx]; rfl), hx, Term.leaves, List.singleton_append]
    case h_2 s hs =>
      rw [leavesOf_cons_leaf rest (by rw [hs]; rfl), hs]
      split at h
      case h_1 => exact call_leaves hd h
      case h_2 =>
        obtain rfl := Except.ok.inj h
        rw [Term.leaves, List.singleton_append]
    case h_3 hl =>
      obtain ⟨inner, hinner, h⟩ := Except.bind_eq_ok.mp h
      obtain ⟨closed, hclosed, h⟩ := Except.bind_eq_ok.mp h
      obtain rfl := Except.pure_eq_ok.mp h
      rw [leavesOf_cons_other rest (by rw [hl]; rfl), ← hd _ _ _ hinner,
        ← expect_leaves hclosed rfl]
    case h_4 => simp [refuse] at h

theorem operand_leaves (hd : KeepsLeaves deeper) {lexemes : List Lexeme}
    {p : Parsed (Term String)} (h : operand stop deeper lexemes = .ok p) :
    p.result.leaves ++ leavesOf p.rest = leavesOf lexemes := by
  simp only [operand] at h
  split at h
  case h_1 => exact atom_leaves hd h
  case h_2 sign hsign =>
    obtain ⟨inner, hinner, h⟩ := Except.bind_eq_ok.mp h
    obtain ⟨height, -, h⟩ := Except.bind_eq_ok.mp h
    obtain rfl := Except.pure_eq_ok.mp h
    cases lexemes with
    | nil => simp at hsign
    | cons l rest =>
      have hother : l.token.isLeaf = false := by
        have ht : l.token.sign? = some sign := hsign
        revert ht
        cases l.token <;> simp [Token.sign?, Token.isLeaf]
      rw [leavesOf_cons_other rest hother, Term.leaves]
      exact hd _ _ _ hinner

theorem operators_leaves (hd : KeepsLeaves deeper) {least fuel : Nat} {compared : Bool}
    {left p : Parsed (Term String)} (h : operators stop deeper least fuel compared left = .ok p) :
    p.result.leaves ++ leavesOf p.rest = left.result.leaves ++ leavesOf left.rest := by
  induction fuel generalizing compared left with
  | zero =>
    obtain rfl := Except.ok.inj h
    rfl
  | succ fuel ih =>
    simp only [operators] at h
    split at h
    case h_1 =>
      obtain rfl := Except.ok.inj h
      rfl
    case h_2 l rest hrest =>
      split at h
      case h_1 =>
        obtain rfl := Except.ok.inj h
        rfl
      case h_2 b hb =>
        split at h
        case isTrue =>
          obtain rfl := Except.ok.inj h
          rfl
        case isFalse =>
          split at h
          case isTrue => simp [refuse] at h
          case isFalse =>
            obtain ⟨right, hright, h⟩ := Except.bind_eq_ok.mp h
            obtain ⟨height, -, h⟩ := Except.bind_eq_ok.mp h
            have hother : l.token.isLeaf = false := by
              revert hb
              cases l.token <;> simp [Token.binding?, Token.isLeaf]
            rw [ih h, hrest, leavesOf_cons_other rest hother, Term.leaves, List.append_assoc]
            exact congrArg _ (hd _ _ _ hright)

theorem level_leaves (levels : Nat) : KeepsLeaves (level stop levels) := by
  induction levels with
  | zero =>
    intro least lexemes p h
    simp [level, refuse] at h
  | succ levels ih =>
    intro least lexemes p h
    obtain ⟨left, hleft, h⟩ := Except.bind_eq_ok.mp h
    rw [operators_leaves ih h, operand_leaves ih hleft]

end

theorem parse_leaves {source : String} {t : Term String} (h : parse source = .ok t) :
    ∃ lexemes, tokenize source = .ok lexemes ∧ t.leaves = leavesOf lexemes := by
  obtain ⟨lexemes, hlexemes, h⟩ := Except.bind_eq_ok.mp h
  refine ⟨lexemes, hlexemes, ?_⟩
  simp only [parseLexemes] at h
  split at h
  case isTrue => simp at h
  case isFalse =>
    obtain ⟨parsed, hparsed, h⟩ := Except.bind_eq_ok.mp h
    split at h
    case h_1 hrest =>
      obtain rfl := Except.pure_eq_ok.mp h
      have hleaves := level_leaves _ _ _ _ hparsed
      rw [hrest] at hleaves
      exact (List.append_nil _).symm.trans hleaves
    case h_2 => simp [refuse] at h

theorem filterMap_leavesOf (lexemes : List Lexeme) :
    (leavesOf lexemes).filterMap Token.name? = lexemes.filterMap (·.token.name?) := by
  rw [leavesOf, List.filterMap_filter, List.filterMap_map]
  refine List.filterMap_congr fun l _ ↦ ?_
  cases hl : l.token <;> simp [hl, Token.isLeaf, Token.name?]

theorem identifiers_of_parse {source : String} {t : Term String} (h : parse source = .ok t) :
    identifiers source = .ok t.words := by
  obtain ⟨lexemes, hlexemes, hleaves⟩ := parse_leaves h
  rw [identifiers, hlexemes, Term.words_eq, hleaves, filterMap_leavesOf]
  rfl

theorem parse_names {source : String} {t : Term String} (h : parse source = .ok t) :
    ∃ names, identifiers source = .ok names ∧ t.names ⊆ names := by
  obtain ⟨lexemes, hlexemes, hleaves⟩ := parse_leaves h
  refine ⟨lexemes.filterMap (·.token.name?), by rw [identifiers, hlexemes]; rfl, ?_⟩
  intro v hv
  have hmem := Term.name_mem_leaves hv
  rw [hleaves, leavesOf, List.mem_filter, List.mem_map] at hmem
  obtain ⟨⟨l, hl, ht⟩, -⟩ := hmem
  exact List.mem_filterMap.mpr ⟨l, hl, by rw [ht]; rfl⟩

end SystemDynamics.Equation
