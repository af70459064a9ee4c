import SystemDynamics.Proofs.Equation.Leaves
import SystemDynamics.Proofs.Equation.Phrase

namespace SystemDynamics.Equation

def tokensOf (lexemes : List Lexeme) : List Token :=
  lexemes.map (·.token)

@[simp] theorem tokensOf_nil : tokensOf [] = [] := rfl

@[simp] theorem tokensOf_cons (l : Lexeme) (rest : List Lexeme) :
    tokensOf (l :: rest) = l.token :: tokensOf rest := rfl

@[simp] theorem tokensOf_append (ls rest : List Lexeme) :
    tokensOf (ls ++ rest) = tokensOf ls ++ tokensOf rest :=
  List.map_append

theorem length_tokensOf (lexemes : List Lexeme) : (tokensOf lexemes).length = lexemes.length :=
  List.length_map _

/-- A parser whose operators bind at least so tightly reads the expressions of the rank: they may
begin with a sign, and have just such operators. -/
structure Rank.Fits (r : Rank) (least : Nat) : Prop where
  signed : r ≠ .tier .power ∧ r ≠ .atom
  strength (t : Tier) : least ≤ t.strength ↔ r.ceiling ≤ t.strength

theorem comparison_fits : (Rank.tier .comparison).Fits 0 :=
  ⟨by decide, fun t ↦ by cases t <;> decide⟩

theorem unary_fits : Rank.unary.Fits signStrength :=
  ⟨by decide, fun t ↦ by cases t <;> decide⟩

theorem Tier.right_fits (t : Tier) : t.right.Fits t.operandStrength :=
  ⟨by cases t <;> decide, fun t' ↦ by cases t <;> cases t' <;> decide⟩

theorem looser_iff {bound : Nat} {rest : List Token} :
    Looser bound rest ↔ ∀ op : Operator, rest.head? = some op.token → op.tier.strength < bound := by
  constructor
  · intro h op hop
    exact h op.token hop _ (binding?_token op)
  · intro h t ht b hb
    obtain ⟨rfl, hstrength⟩ := binding?_eq_some hb
    rw [hstrength]
    exact h b.op ht

theorem Rank.Fits.looser_iff {r : Rank} {least : Nat} (h : r.Fits least) {rest : List Token} :
    Looser least rest ↔ Looser r.ceiling rest := by
  have hlt (op : Operator) : op.tier.strength < least ↔ op.tier.strength < r.ceiling :=
    Nat.not_le.symm.trans ((not_congr (h.strength op.tier)).trans Nat.not_le)
  simp only [Equation.looser_iff, hlt]

section

variable {stop levels : Nat} {deeper : Level} {lexemes : List Lexeme}

structure Derives {r : Rank} (levels : Nat) (c : Phrase (.expression r)) (lexemes : List Lexeme)
    (p : Parsed (Term String)) : Prop where
  tokens : tokensOf lexemes = c.tokens ++ tokensOf p.rest
  term : p.result = c.term
  height : p.height = p.result.height
  low : p.height ≤ maxLevels
  nesting : c.nesting < levels

/-- A parser that reads phrases of the rank that fits, as far as they go. -/
def Sound (levels : Nat) (deeper : Level) : Prop :=
  ∀ (r : Rank) (least : Nat) (lexemes : List Lexeme) (p : Parsed (Term String)), r.Fits least →
    deeper least lexemes = .ok p →
    Looser least (tokensOf p.rest) ∧ ∃ c : Phrase (.expression r), Derives levels c lexemes p

theorem checkHeight_eq_ok {height height' : Nat} :
    checkHeight stop height lexemes = .ok height' ↔ height ≤ maxLevels ∧ height' = height := by
  simp only [checkHeight]
  split <;> simp [refuse] <;> omega

theorem one_le_maxLevels : 1 ≤ maxLevels := by
  decide

theorem Phrase.length_moreArguments {count : Nat} :
    (c : Phrase (.moreArguments count)) → List.length (α := Term String) c.term = count
  | noMore => rfl
  | nextArgument _ more => congrArg (· + 1) more.length_moreArguments

theorem Phrase.length_arguments {count : Nat} :
    (c : Phrase (.arguments count)) → List.length (α := Term String) c.term = count
  | noArguments => rfl
  | firstArgument _ more => congrArg (· + 1) more.length_moreArguments

structure DerivesAll {count : Nat} (levels : Nat) (c : Phrase (.arguments count))
    (lexemes : List Lexeme) (p : Parsed (List (Term String))) : Prop where
  tokens : tokensOf lexemes = c.tokens ++ tokensOf p.rest
  term : p.result = c.term
  height : p.height = Term.heightAll p.result
  nesting : c.nesting ≤ levels

theorem arguments_derive (hd : Sound levels deeper) {fuel : Nat} {p : Parsed (List (Term String))}
    (h : arguments stop deeper fuel lexemes = .ok p) :
    ∃ count, ∃ c : Phrase (.arguments (count + 1)), DerivesAll levels c lexemes p := by
  induction fuel generalizing lexemes p with
  | zero => simp [arguments, refuse] at h
  | succ fuel ih =>
    simp only [arguments, Except.bind_eq_ok] at h
    obtain ⟨first, hfirst, h⟩ := h
    obtain ⟨-, c, hc⟩ := hd _ _ _ _ comparison_fits hfirst
    have hnesting : c.nesting + 1 ≤ levels := hc.nesting
    split at h
    case h_1 => simp [refuse] at h
    case h_2 l rest hrest =>
      have htokens := hc.tokens
      rw [hrest, tokensOf_cons] at htokens
      split at h
      case h_1 hcomma =>
        obtain ⟨others, hothers, h⟩ := Except.bind_eq_ok.mp h
        obtain rfl := Except.pure_eq_ok.mp h
        obtain ⟨count, others', hc'⟩ := ih hothers
        cases others' with
        | firstArgument next more =>
          have hmore := hc'.nesting
          refine ⟨count + 1, .firstArgument c (.nextArgument next more), ?_, ?_, ?_, ?_⟩
          · rw [htokens, hcomma, hc'.tokens]
            simp [Phrase.tokens]
          · rw [hc.term, hc'.term]
            rfl
          · simp only [hc.height, hc'.height, Term.heightAll]
          · simp only [Phrase.nesting] at hmore ⊢
            omega
      case h_2 hparen =>
        obtain rfl := Except.pure_eq_ok.mp h
        refine ⟨0, .firstArgument c .noMore, ?_, ?_, ?_, ?_⟩
        · rw [htokens, hparen]
          simp [Phrase.tokens]
        · rw [hc.term]
          rfl
        · simp [hc.height, Term.heightAll]
        · simp only [Phrase.nesting]
          omega
      case h_3 => simp [refuse] at h

theorem argumentList_derive (hd : Sound levels deeper) {p : Parsed (List (Term String))}
    (h : argumentList stop deeper lexemes = .ok p) :
    ∃ count, ∃ c : Phrase (.arguments count), DerivesAll levels c lexemes p := by
  simp only [argumentList] at h
  split at h
  case h_1 =>
    obtain rfl := Except.ok.inj h
    exact ⟨0, .noArguments, rfl, rfl, rfl, Nat.zero_le _⟩
  case h_2 =>
    obtain ⟨count, c, hc⟩ := arguments_derive hd h
    exact ⟨count + 1, c, hc⟩

theorem call_derives (hd : Sound levels deeper) {name : String} {offset : Nat}
    {p : Parsed (Term String)} {l : Lexeme} (hl : l.token = .name name)
    (h : call stop deeper name offset lexemes = .ok p) :
    ∃ c : Phrase (.expression .atom), Derives (levels + 1) c (l :: lexemes) p := by
  simp only [call] at h
  split at h
  case h_1 => simp at h
  case h_2 f hf =>
    simp only [Except.bind_eq_ok] at h
    obtain ⟨rest, hrest, args, hargs, h⟩ := h
    obtain ⟨paren, rfl, hparen⟩ := expect_eq_ok hrest
    obtain ⟨count, c, hc⟩ := argumentList_derive hd hargs
    split at h
    case isFalse => simp at h
    case isTrue haccepts =>
      obtain ⟨height, hheight, h⟩ := Except.bind_eq_ok.mp h
      obtain rfl := Except.pure_eq_ok.mp h
      obtain ⟨hlow, rfl⟩ := checkHeight_eq_ok.mp hheight
      have hcount : args.result.length = count := by rw [hc.term, Phrase.length_arguments]
      rw [hcount] at haccepts
      refine ⟨.call f haccepts c, ?_, ?_, ?_, hlow, Nat.lt_succ_of_le hc.nesting⟩
      · obtain rfl := ofName?_eq_some hf
        simp [Phrase.tokens, hl, hparen, hc.tokens]
      · rw [hc.term]
        rfl
      · rw [hc.height, Term.height]

theorem atom_derives (hd : Sound levels deeper) {p : Parsed (Term String)}
    (h : atom stop deeper lexemes = .ok p) :
    ∃ c : Phrase (.expression .atom), Derives (levels + 1) c lexemes p := by
  cases lexemes with
  | nil => simp [atom, refuse] at h
  | cons l rest =>
    simp only [atom] at h
    split at h
    case h_1 x hx =>
      obtain rfl := Except.ok.inj h
      refine ⟨.number x, ?_, rfl, rfl, one_le_maxLevels, Nat.succ_pos _⟩
      simp [Phrase.tokens, hx]
    case h_2 s hs =>
      split at h
      case h_1 => exact call_derives hd hs h
      case h_2 =>
        obtain rfl := Except.ok.inj h
        refine ⟨.name s, ?_, rfl, rfl, one_le_maxLevels, Nat.succ_pos _⟩
        simp [Phrase.tokens, hs]
    case h_3 hparen =>
      simp only [Except.bind_eq_ok] at h
      obtain ⟨inner, hinner, closed, hclosed, h⟩ := h
      obtain rfl := Except.pure_eq_ok.mp h
      obtain ⟨l', hl', hclose⟩ := expect_eq_ok hclosed
      obtain ⟨-, c, hc⟩ := hd _ _ _ _ comparison_fits hinner
      refine ⟨.group c, ?_, hc.term, hc.height, hc.low, Nat.succ_lt_succ hc.nesting⟩
      simp [Phrase.tokens, hparen, hc.tokens, hl', hclose]
    case h_4 => simp [refuse] at h

theorem sign?_eq_some {t : Token} {sign : Sign} (h : t.sign? = some sign) : t = sign.token := by
  cases t <;> cases h <;> rfl

theorem operand_derives (hd : Sound levels deeper) {p : Parsed (Term String)}
    (h : operand stop deeper lexemes = .ok p) :
    (∃ c : Phrase (.expression .atom), Derives (levels + 1) c lexemes p) ∨
      ((∃ c : Phrase (.expression .unary), Derives (levels + 1) c lexemes p) ∧
        Looser Rank.unary.ceiling (tokensOf p.rest)) := by
  simp only [operand] at h
  split at h
  case h_1 => exact .inl (atom_derives hd h)
  case h_2 sign hsign =>
    right
    simp only [Except.bind_eq_ok] at h
    obtain ⟨inner, hinner, height, hheight, h⟩ := h
    obtain rfl := Except.pure_eq_ok.mp h
    obtain ⟨hlow, rfl⟩ := checkHeight_eq_ok.mp hheight
    obtain ⟨hlooser, c, hc⟩ := hd _ _ _ _ unary_fits hinner
    refine ⟨⟨.signed sign c, ?_, ?_, ?_, hlow, Nat.succ_lt_succ hc.nesting⟩,
      unary_fits.looser_iff.mp hlooser⟩
    · cases lexemes with
      | nil => simp at hsign
      | cons l rest =>
        have htokens := hc.tokens
        rw [List.drop_one, List.tail_cons] at htokens
        simp [Phrase.tokens, htokens, sign?_eq_some hsign]
    · rw [hc.term]
      rfl
    · rw [hc.height, Term.height]

/-- The loop over the operators ends before one that does not bind tightly enough, or reads one
with its right operand and goes on. -/
theorem operators_eq_ok {least fuel : Nat} {compared : Bool} {left p : Parsed (Term String)}
    (h : operators stop deeper least fuel compared left = .ok p) (hfuel : left.rest.length ≤ fuel) :
    (p = left ∧ Looser least (tokensOf left.rest)) ∨
      ∃ l rest op right, left.rest = l :: rest ∧ l.token = op.token ∧ least ≤ op.tier.strength ∧
        (op.isComparison && compared) = false ∧
        deeper op.tier.operandStrength rest = .ok right ∧
        1 + max left.height right.height ≤ maxLevels ∧
        operators stop deeper least (fuel - 1) (compared || op.isComparison)
          ⟨.binary op left.result right.result, 1 + max left.height right.height, right.rest⟩ =
            .ok p := by
  cases fuel with
  | zero =>
    obtain rfl := Except.ok.inj h
    have hnil := List.length_eq_zero_iff.mp (Nat.le_zero.mp hfuel)
    exact .inl ⟨rfl, hnil ▸ looser_nil _⟩
  | succ fuel =>
    simp only [operators] at h
    split at h
    case h_1 hnil =>
      obtain rfl := Except.ok.inj h
      exact .inl ⟨rfl, hnil ▸ looser_nil _⟩
    case h_2 l rest hrest =>
      split at h
      case h_1 hb =>
        obtain rfl := Except.ok.inj h
        refine .inl ⟨rfl, hrest ▸ looser_cons ?_⟩
        simp [hb]
      case h_2 b hb =>
        obtain ⟨hl, hbinding⟩ := binding?_eq_some hb
        split at h
        case isTrue hlt =>
          obtain rfl := Except.ok.inj h
          refine .inl ⟨rfl, hrest ▸ looser_cons ?_⟩
          intro b' hb'
          obtain rfl := Option.some.inj (hb.symm.trans hb')
          exact hlt
        case isFalse hle =>
          split at h
          case isTrue => simp [refuse] at h
          case isFalse hchained =>
            simp only [Except.bind_eq_ok] at h
            obtain ⟨right, hright, height, hheight, h⟩ := h
            obtain ⟨hlow, rfl⟩ := checkHeight_eq_ok.mp hheight
            rw [hbinding] at hright hle
            exact .inr ⟨l, rest, b.op, right, hrest, hl, Nat.not_lt.mp hle,
              Bool.eq_false_iff.mpr hchained, hright, hlow, h⟩

/-- From a left operand on, with fuel for all that is left, the loop over the operators returns
`p`. -/
def Goes (stop : Nat) (deeper : Level) (least : Nat) (left p : Parsed (Term String)) : Prop :=
  ∃ fuel compared, left.rest.length ≤ fuel ∧ operators stop deeper least fuel compared left = .ok p

structure DerivesTail {o : Option Tier} (levels : Nat) (c : Phrase (.tail o))
    (left left' : Parsed (Term String)) : Prop where
  tokens : tokensOf left.rest = c.tokens ++ tokensOf left'.rest
  term : left'.result = c.term left.result
  height : left'.height = left'.result.height
  low : left'.height ≤ maxLevels
  nesting : c.nesting ≤ levels

theorem Operator.isComparison_iff {op : Operator} :
    op.isComparison = true ↔ op.tier = .comparison := by
  cases op <;> decide

theorem Tier.strength_lt_of_ne {t t' : Tier} (h : t'.strength < t.first.ceiling) (hne : t' ≠ t) :
    t'.strength < t.strength := by
  cases t <;> cases t' <;> first | exact absurd rfl hne | (revert h; decide)

theorem Derives.length_le {r : Rank} {c : Phrase (.expression r)} {p : Parsed (Term String)}
    (h : Derives levels c lexemes p) : p.rest.length ≤ lexemes.length := by
  have hlength := congrArg List.length h.tokens
  rw [List.length_append, length_tokensOf, length_tokensOf] at hlength
  omega

/-- After a comparison comes no operator at all: a further one would be refused. -/
theorem operators_compared {least fuel : Nat} {left p : Parsed (Term String)}
    (h : operators stop deeper least fuel true left = .ok p) (hfuel : left.rest.length ≤ fuel)
    (hleast : least ≤ Tier.comparison.strength)
    (hlooser : Looser Tier.comparison.operandStrength (tokensOf left.rest)) :
    Looser Tier.comparison.strength (tokensOf left.rest) := by
  rcases operators_eq_ok h hfuel with ⟨-, hstop⟩ | ⟨l, rest, op, right, hrest, hl, -, hchained, -⟩
  · exact hstop.mono hleast
  · rw [hrest, tokensOf_cons, hl] at hlooser ⊢
    have hlt := looser_operator_iff.mp hlooser
    have hne : op.tier ≠ .comparison := by
      intro htier
      rw [Operator.isComparison_iff.mpr htier] at hchained
      cases hchained
    exact looser_operator_iff.mpr
      (Tier.strength_lt_of_ne (Nat.lt_of_lt_of_le hlt (by decide)) hne)

/-- The loop over the operators has come to the end of a tail, after operators of the tier. -/
def ReachesTail (stop : Nat) (deeper : Level) (levels least : Nat) (t : Tier) (o : Option Tier)
    (left p : Parsed (Term String)) : Prop :=
  ∃ (c : Phrase (.tail o)) (left' : Parsed (Term String)),
    DerivesTail levels c left left' ∧ Looser t.strength (tokensOf left'.rest) ∧
      Goes stop deeper least left' p

theorem ReachesTail.done {least : Nat} {t : Tier} {o : Option Tier} {left p : Parsed (Term String)}
    (hheight : left.height = left.result.height) (hlow : left.height ≤ maxLevels)
    (hstop : Looser t.strength (tokensOf left.rest)) (h : Goes stop deeper least left p) :
    ReachesTail stop deeper levels least t o left p :=
  ⟨.done, left, ⟨rfl, rfl, hheight, hlow, Nat.zero_le _⟩, hstop, h⟩

theorem ReachesTail.link {least : Nat} {t : Tier} {op : Operator} {l : Lexeme}
    {left right p : Parsed (Term String)} (htier : op.tier = t) (hrest : left.rest = l :: lexemes)
    (hl : l.token = op.token) {c : Phrase (.expression t.right)}
    (hc : Derives levels c lexemes right) (h : ReachesTail stop deeper levels least t t.again
      ⟨.binary op left.result right.result, 1 + max left.height right.height, right.rest⟩ p) :
    ReachesTail stop deeper levels least t (some t) left p := by
  obtain ⟨tail, left', ⟨htokens, hterm, hheight, hlow, hnesting⟩, hstop, hgoes⟩ := h
  refine ⟨.link op htier c tail, left', ⟨?_, ?_, hheight, hlow, ?_⟩, hstop, hgoes⟩
  · simp only at htokens
    simp [hrest, hl, hc.tokens, htokens, Phrase.tokens]
  · rw [hterm, Phrase.term, ← hc.term]
  · exact Nat.max_le.mpr ⟨hc.nesting, hnesting⟩

theorem tail_derives (hd : Sound levels deeper) {t : Tier} {least : Nat}
    {left p : Parsed (Term String)} (hleast : least ≤ t.strength)
    (hlooser : Looser t.first.ceiling (tokensOf left.rest))
    (hheight : left.height = left.result.height) (hlow : left.height ≤ maxLevels)
    (h : Goes stop deeper least left p) :
    ReachesTail stop deeper levels least t (some t) left p := by
  -- by induction on the lexemes left: a right operand takes some of them
  induction hn : left.rest.length using Nat.strongRecOn generalizing left with
  | ind n ih =>
    obtain ⟨fuel, compared, hfuel, hloop⟩ := id h
    rcases operators_eq_ok hloop hfuel with
      ⟨-, hstop⟩ | ⟨l, rest, op, right, hrest, hl, -, -, hright, hlow', hloop'⟩
    · exact .done hheight hlow (hstop.mono hleast) h
    by_cases htier : op.tier = t
    · rw [htier] at hright
      obtain ⟨hlooser', c, hc⟩ := hd _ _ _ _ t.right_fits hright
      have hlength := hc.length_le
      rw [hrest, List.length_cons] at hfuel hn
      have hless : right.rest.length < n := by omega
      have henough : right.rest.length ≤ fuel - 1 := by omega
      have hheight' : 1 + max left.height right.height =
          (Term.binary op left.result right.result).height := by
        rw [hheight, hc.height, Term.height, Nat.add_comm]
      have hgoes : Goes stop deeper least ⟨.binary op left.result right.result,
          1 + max left.height right.height, right.rest⟩ p :=
        ⟨fuel - 1, _, henough, hloop'⟩
      refine .link htier hrest hl hc ?_
      -- sums and products go on; after a power or a comparison the tail ends
      cases t with
      | sum | product => exact ih _ hless (hlooser'.mono (by decide)) hheight' hlow' hgoes rfl
      | power => exact .done hheight' hlow' hlooser' hgoes
      | comparison =>
        rw [Operator.isComparison_iff.mpr htier, Bool.or_true] at hloop'
        exact .done hheight' hlow' (operators_compared hloop' henough hleast hlooser') hgoes
    · refine .done hheight hlow ?_ h
      rw [hrest, tokensOf_cons, hl] at hlooser ⊢
      exact looser_operator_iff.mpr
        (Tier.strength_lt_of_ne (looser_operator_iff.mp hlooser) htier)

/-- The loop over the operators has come to the end of an expression of the rank. -/
def Reaches (stop : Nat) (deeper : Level) (levels least : Nat) (lexemes : List Lexeme)
    (p : Parsed (Term String)) (r : Rank) : Prop :=
  ∃ (c : Phrase (.expression r)) (left : Parsed (Term String)),
    Derives (levels + 1) c lexemes left ∧ Looser r.ceiling (tokensOf left.rest) ∧
      Goes stop deeper least left p

theorem Reaches.tier (hd : Sound levels deeper) {t : Tier} {least : Nat} {p : Parsed (Term String)}
    (h : Reaches stop deeper levels least lexemes p t.first) (hleast : least ≤ t.strength) :
    Reaches stop deeper levels least lexemes p (.tier t) := by
  obtain ⟨c, left, hc, hlooser, hgoes⟩ := h
  obtain ⟨tail, left', htail, hlooser', hgoes'⟩ :=
    tail_derives hd hleast hlooser hc.height hc.low hgoes
  refine ⟨.tier c tail, left', ⟨?_, ?_, htail.height, htail.low, ?_⟩, hlooser', hgoes'⟩
  · rw [hc.tokens, htail.tokens, Phrase.tokens, List.append_assoc]
  · rw [htail.term, hc.term, Phrase.term]
  · exact Nat.max_lt.mpr ⟨hc.nesting, Nat.lt_succ_of_le htail.nesting⟩

theorem Reaches.unary {least : Nat} {p : Parsed (Term String)}
    (h : Reaches stop deeper levels least lexemes p (.tier .power)) :
    Reaches stop deeper levels least lexemes p .unary := by
  obtain ⟨c, left, ⟨htokens, hterm, hheight, hlow, hnesting⟩, hlooser, hgoes⟩ := h
  exact ⟨.unsigned c, left, ⟨htokens, hterm, hheight, hlow, hnesting⟩, hlooser, hgoes⟩

theorem looser_atom (rest : List Token) : Looser Rank.atom.ceiling rest :=
  looser_iff.mpr fun op _ ↦ by cases op <;> decide

theorem Reaches.eq {r : Rank} {least : Nat} {p : Parsed (Term String)}
    (h : Reaches stop deeper levels least lexemes p r) (hr : r.Fits least) :
    Looser least (tokensOf p.rest) ∧
      ∃ c : Phrase (.expression r), Derives (levels + 1) c lexemes p := by
  obtain ⟨c, left, hc, hlooser, fuel, compared, hfuel, hloop⟩ := h
  have hstop := hr.looser_iff.mpr hlooser
  rcases operators_eq_ok hloop hfuel with ⟨rfl, -⟩ | ⟨l, rest, op, right, hrest, hl, hle, -⟩
  · exact ⟨hstop, c, hc⟩
  · rw [hrest, tokensOf_cons, hl] at hstop
    exact absurd (looser_operator_iff.mp hstop) (Nat.not_lt.mpr hle)

theorem Rank.Fits.ceiling_le {r : Rank} {least : Nat} (h : r.Fits least) :
    r.ceiling ≤ Tier.power.strength := by
  cases r with
  | tier t => cases t <;> decide
  | unary => decide
  | atom => exact absurd rfl h.signed.2

theorem level_sound (levels : Nat) : Sound levels (level stop levels) := by
  induction levels with
  | zero =>
    intro r least lexemes p hr h
    simp [level, refuse] at h
  | succ levels ih =>
    intro r least lexemes p hr h
    obtain ⟨left, hleft, hloop⟩ := Except.bind_eq_ok.mp h
    have hgoes : Goes stop (level stop levels) least left p := ⟨_, _, Nat.le_refl _, hloop⟩
    have hclimb (t : Tier) (ht : r.ceiling ≤ t.strength)
        (hfirst : Reaches stop (level stop levels) levels least lexemes p t.first) :
        Reaches stop (level stop levels) levels least lexemes p (.tier t) :=
      hfirst.tier ih ((hr.strength t).mpr ht)
    have hunary : Reaches stop (level stop levels) levels least lexemes p .unary := by
      rcases operand_derives ih hleft with ⟨c, hc⟩ | ⟨⟨c, hc⟩, hlooser⟩
      · exact (hclimb .power hr.ceiling_le ⟨c, left, hc, looser_atom _, hgoes⟩).unary
      · exact ⟨c, left, hc, hlooser, hgoes⟩
    suffices hreaches : Reaches stop (level stop levels) levels least lexemes p r from
      hreaches.eq hr
    cases r with
    | atom => exact absurd rfl hr.signed.2
    | unary => exact hunary
    | tier t =>
      cases t with
      | power => exact absurd rfl hr.signed.1
      | product => exact hclimb .product (by decide) hunary
      | sum => exact hclimb .sum (by decide) (hclimb .product (by decide) hunary)
      | comparison =>
        exact hclimb .comparison (by decide)
          (hclimb .sum (by decide) (hclimb .product (by decide) hunary))

theorem parseLexemes_derives {t : Term String} (h : parseLexemes stop lexemes = .ok t) :
    ∃ c : Phrase (.expression (.tier .comparison)),
      c.tokens = tokensOf lexemes ∧ c.term = t ∧ t.height ≤ maxLevels ∧
        1 + c.nesting ≤ maxLevels := by
  simp only [parseLexemes] at h
  split at h
  case isTrue => simp at h
  case isFalse =>
    obtain ⟨parsed, hparsed, h⟩ := Except.bind_eq_ok.mp h
    split at h
    case h_1 hrest =>
      obtain rfl := Except.pure_eq_ok.mp h
      obtain ⟨-, c, hc⟩ := level_sound _ _ _ _ _ comparison_fits hparsed
      refine ⟨c, ?_, hc.term.symm, hc.height ▸ hc.low, Nat.one_add_le_iff.mpr hc.nesting⟩
      rw [hc.tokens, hrest, tokensOf_nil, List.append_nil]
    case h_2 => simp [refuse] at h

end

end SystemDynamics.Equation
