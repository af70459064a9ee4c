import SystemDynamics.Proofs.Equation.Derivation

namespace SystemDynamics.Equation

theorem tokensOf_eq_cons {lexemes : List Lexeme} {t : Token} {ts : List Token}
    (h : tokensOf lexemes = t :: ts) :
    ∃ text offset rest, lexemes = ⟨t, text, offset⟩ :: rest ∧ tokensOf rest = ts := by
  obtain ⟨l, rest, rfl, rfl, hrest⟩ := List.map_eq_cons_iff.mp h
  exact ⟨l.text, l.offset, rest, rfl, hrest⟩

theorem tokensOf_eq_append {lexemes : List Lexeme} {ts ts' : List Token}
    (h : tokensOf lexemes = ts ++ ts') :
    ∃ ls rest, lexemes = ls ++ rest ∧ tokensOf ls = ts ∧ tokensOf rest = ts' :=
  List.map_eq_append_iff.mp h

theorem Rank.Fits.le_ceiling {r : Rank} {least : Nat} (h : r.Fits least) : least ≤ r.ceiling := by
  cases r with
  | tier t => exact (h.strength t).mpr (Nat.le_refl _)
  | unary => exact (h.strength .power).mpr (Nat.le_refl _)
  | atom => exact absurd rfl h.signed.2

section

variable {stop : Nat} {deeper : Level} {least fuel : Nat} {compared : Bool}
  {left right : Parsed (Term String)}

theorem Tier.again_ne (t : Tier) : t.again ≠ some .comparison := by
  cases t <;> decide

theorem checkHeight_eq {height : Nat} {rest : List Lexeme} (h : height ≤ maxLevels) :
    checkHeight stop height rest = .ok height :=
  checkHeight_eq_ok.mpr ⟨h, rfl⟩

theorem operators_stop (h : Looser least (tokensOf left.rest)) :
    operators stop deeper least fuel compared left = .ok left := by
  cases fuel with
  | zero => rfl
  | succ fuel =>
    simp only [operators]
    split
    case h_1 => rfl
    case h_2 l rest hrest =>
      split
      case h_1 => rfl
      case h_2 b hb =>
        rw [hrest] at h
        rw [if_pos (h l.token rfl b hb)]

theorem operators_link {l : Lexeme} {rest : List Lexeme} {op : Operator}
    (hrest : left.rest = l :: rest) (hl : l.token = op.token) (hleast : least ≤ op.tier.strength)
    (hcompared : (op.isComparison && compared) = false)
    (hright : deeper op.tier.operandStrength rest = .ok right)
    (hlow : 1 + max left.height right.height ≤ maxLevels) :
    operators stop deeper least (fuel + 1) compared left =
      operators stop deeper least fuel (compared || op.isComparison)
        ⟨.binary op left.result right.result, 1 + max left.height right.height, right.rest⟩ := by
  simp only [operators, hrest, hl, binding?_token, Nat.not_lt.mpr hleast, if_false, hcompared,
    Bool.false_eq_true, hright, Except.ok_bind, checkHeight_eq hlow]

end

/-- What a parser of levels enough makes of the tokens of a phrase, when no token after them goes on
with it: of an expression and of a tail, an operand from which the loop over the operators goes on;
of arguments, their terms. -/
def Phrase.IsRead (stop : Nat) : {k : Category} → Phrase k → Prop
  | .expression r, c =>
    ∀ (levels least : Nat) (ls rest : List Lexeme), tokensOf ls = c.tokens → c.nesting ≤ levels →
      Term.height c.term ≤ maxLevels → least ≤ r.ceiling → Stops r.ceiling (tokensOf rest) →
      ∃ fuel compared, rest.length ≤ fuel ∧ (compared = true → r = .tier .comparison) ∧
        level stop (levels + 1) least (ls ++ rest) =
          operators stop (level stop levels) least fuel compared ⟨c.term, Term.height c.term, rest⟩
  | .tail o, c =>
    ∀ (levels least fuel : Nat) (compared : Bool) (left : Term String) (ls rest : List Lexeme),
      tokensOf ls = c.tokens → c.nesting ≤ levels → Term.height (c.term left) ≤ maxLevels →
      least ≤ (Category.tail o).ceiling → (compared = true → o ≠ some .comparison) →
      Stops (Category.tail o).ceiling (tokensOf rest) → (ls ++ rest).length ≤ fuel →
      ∃ fuel' compared', rest.length ≤ fuel' ∧
        (compared' = true → compared = true ∨ o = some .comparison) ∧
        operators stop (level stop levels) least fuel compared ⟨left, left.height, ls ++ rest⟩ =
          operators stop (level stop levels) least fuel' compared'
            ⟨c.term left, Term.height (c.term left), rest⟩
  | .arguments _, c =>
    ∀ (levels : Nat) (ls rest : List Lexeme), tokensOf ls = c.tokens → c.nesting ≤ levels →
      Term.heightAll c.term ≤ maxLevels →
      argumentList stop (level stop levels) (ls ++ rest) =
        .ok ⟨c.term, Term.heightAll c.term, rest⟩
  | .moreArguments count, c =>
    ∀ (levels fuel : Nat) (first : Parsed (Term String)) (lexemes ls rest : List Lexeme),
      tokensOf ls = c.tokens → c.nesting ≤ levels → Term.heightAll c.term ≤ maxLevels →
      count ≤ fuel → level stop levels 0 lexemes = .ok first → first.rest = ls ++ rest →
      arguments stop (level stop levels) (fuel + 1) lexemes =
        .ok ⟨first.result :: c.term, max first.height (Term.heightAll c.term), rest⟩

namespace Phrase

variable {stop : Nat}

theorem IsRead.level_eq {r : Rank} {c : Phrase (.expression r)} (h : c.IsRead stop)
    {levels least : Nat} (hr : r.Fits least) {ls rest : List Lexeme} (hls : tokensOf ls = c.tokens)
    (hnesting : c.nesting < levels) (hlow : Term.height c.term ≤ maxLevels)
    (hstops : Stops least (tokensOf rest)) :
    level stop levels least (ls ++ rest) = .ok ⟨c.term, Term.height c.term, rest⟩ := by
  obtain ⟨levels, rfl⟩ := Nat.exists_eq_add_one_of_ne_zero (Nat.ne_zero_of_lt hnesting)
  obtain ⟨fuel, compared, -, -, hlevel⟩ := h levels least ls rest hls
    (Nat.le_of_lt_succ hnesting) hlow hr.le_ceiling (hstops.mono hr.le_ceiling)
  rw [hlevel, operators_stop hstops.looser]

theorem height_le_term : {o : Option Tier} → (c : Phrase (.tail o)) → (left : Term String) →
    left.height ≤ Term.height (c.term left)
  | _, done, _ => Nat.le_refl _
  | _, link op _ right tail, left =>
    Nat.le_trans (Nat.le_succ_of_le (Nat.le_max_left _ _))
      (tail.height_le_term (.binary op left right.term))

theorem isRead_tier {t : Tier} {first : Phrase (.expression t.first)}
    {tail : Phrase (.tail (some t))} (hfirst : first.IsRead stop) (htail : tail.IsRead stop) :
    (tier first tail).IsRead stop := by
  intro levels least ls rest hphrase hnesting hlow hleast hstops
  obtain ⟨ls, ls', rfl, hls, hls'⟩ := tokensOf_eq_append hphrase
  have hnestings := Nat.max_le.mp hnesting
  have hfirstLow : Term.height first.term ≤ maxLevels :=
    Nat.le_trans (tail.height_le_term first.term) hlow
  have hfirstStops : Stops t.first.ceiling (tokensOf (ls' ++ rest)) := by
    rw [tokensOf_append, hls']
    exact tail.stops_first hstops
  obtain ⟨fuel, compared, hfuel, hcompared, hlevel⟩ :=
    hfirst levels least ls (ls' ++ rest) hls hnestings.1 hfirstLow
      (Nat.le_trans hleast (Nat.le_of_lt t.strength_lt_first)) hfirstStops
  have hfresh : compared = false := by
    refine Bool.eq_false_iff.mpr fun htrue ↦ ?_
    have hcomparison := hcompared htrue
    cases t <;> cases hcomparison
  subst hfresh
  obtain ⟨fuel', compared', hfuel', hcompared', hoperators⟩ :=
    htail levels least fuel false first.term ls' rest hls' hnestings.2 hlow hleast nofun hstops
      hfuel
  refine ⟨fuel', compared', hfuel', fun htrue ↦ ?_, ?_⟩
  · rcases hcompared' htrue with hfalse | hcomparison
    · cases hfalse
    · rw [Option.some.inj hcomparison]
  · rw [List.append_assoc, hlevel]
    exact hoperators

theorem isRead_done {o : Option Tier} : (done : Phrase (.tail o)).IsRead stop := by
  intro levels least fuel compared left ls rest hphrase hnesting hlow hleast hcompared hstops hfuel
  obtain rfl := List.map_eq_nil_iff.mp hphrase
  exact ⟨fuel, compared, hfuel, .inl, rfl⟩

theorem isRead_link {op : Operator} {right : Phrase (.expression op.tier.right)}
    {tail : Phrase (.tail op.tier.again)} (hright : right.IsRead stop) (htail : tail.IsRead stop) :
    (link op rfl right tail).IsRead stop := by
  intro levels least fuel compared left ls rest hphrase hnesting hlow hleast hcompared hstops hfuel
  obtain ⟨text, offset, inside, rfl, hinside⟩ := tokensOf_eq_cons hphrase
  obtain ⟨ls, ls', rfl, hls, hls'⟩ := tokensOf_eq_append hinside
  have hnestings := Nat.max_le.mp hnesting
  have hnext : Term.height (.binary op left right.term) ≤ maxLevels :=
    Nat.le_trans (tail.height_le_term _) hlow
  have hrightStops : Stops op.tier.operandStrength (tokensOf (ls' ++ rest)) := by
    rw [tokensOf_append, hls']
    exact tail.stops_right hstops
  have hrightLevel := hright.level_eq op.tier.right_fits hls hnestings.1
    (Nat.le_trans (Nat.le_succ_of_le (Nat.le_max_right _ _)) hnext) hrightStops
  have hfresh : (op.isComparison && compared) = false := by
    cases compared with
    | false => exact Bool.and_false _
    | true =>
      rw [Bool.and_true]
      refine Bool.eq_false_iff.mpr fun hop ↦ hcompared rfl ?_
      rw [Operator.isComparison_iff.mp hop]
  have hpositive : fuel ≠ 0 := Nat.ne_zero_of_lt hfuel
  obtain ⟨fuel, rfl⟩ := Nat.exists_eq_add_one_of_ne_zero hpositive
  have hfuelNext : (ls' ++ rest).length ≤ fuel := by
    simp only [List.cons_append, List.length_cons, List.length_append] at hfuel ⊢
    omega
  have hagain := op.tier.strength_le_again
  obtain ⟨fuel', compared', hfuel', hcompared', hoperators⟩ :=
    htail levels least fuel (compared || op.isComparison) (.binary op left right.term) ls' rest hls'
      hnestings.2 hlow (Nat.le_trans hleast hagain) (fun _ ↦ op.tier.again_ne)
      (hstops.mono hagain) hfuelNext
  refine ⟨fuel', compared', hfuel', fun htrue ↦ ?_, ?_⟩
  · rcases hcompared' htrue with hor | hagain
    · rw [Bool.or_eq_true, Operator.isComparison_iff] at hor
      exact hor.imp_right (congrArg some)
    · exact absurd hagain op.tier.again_ne
  · have hheight : 1 + max left.height (Term.height right.term) =
        Term.height (.binary op left right.term) :=
      Nat.add_comm _ _
    rw [List.cons_append, List.append_assoc,
      operators_link rfl rfl hleast hfresh hrightLevel (Nat.le_trans (Nat.le_of_eq hheight) hnext)]
    dsimp only
    rw [hheight]
    exact hoperators

theorem isRead_of_atom {c : Phrase (.expression .atom)}
    (h : ∀ (levels : Nat) (ls rest : List Lexeme), tokensOf ls = c.tokens → c.nesting ≤ levels →
      Term.height c.term ≤ maxLevels → Stops Rank.atom.ceiling (tokensOf rest) →
      atom stop (level stop levels) (ls ++ rest) = .ok ⟨c.term, Term.height c.term, rest⟩) :
    c.IsRead stop := by
  intro levels least ls rest hphrase hnesting hlow _ hstops
  have hatom := h levels ls rest hphrase hnesting hlow hstops
  obtain ⟨t, ts, htokens, -, hsign⟩ := c.tokens_eq_cons rfl
  obtain ⟨text, offset, ls, rfl, -⟩ := tokensOf_eq_cons (hphrase.trans htokens)
  refine ⟨rest.length, false, Nat.le_refl _, nofun, ?_⟩
  simp only [level, operand, List.cons_append, List.head?_cons, Option.bind_some, hsign]
  rw [← List.cons_append, hatom]
  rfl

theorem isRead_number (x : Float) : (number x).IsRead stop := by
  refine isRead_of_atom fun levels ls rest hphrase _ _ _ ↦ ?_
  obtain ⟨text, offset, ls, rfl, hnil⟩ := tokensOf_eq_cons hphrase
  obtain rfl := List.map_eq_nil_iff.mp hnil
  rfl

theorem isRead_name (s : String) : (name s).IsRead stop := by
  refine isRead_of_atom fun levels ls rest hphrase _ _ hstops ↦ ?_
  obtain ⟨text, offset, ls, rfl, hnil⟩ := tokensOf_eq_cons hphrase
  obtain rfl := List.map_eq_nil_iff.mp hnil
  simp only [atom, List.cons_append, List.nil_append]
  split
  case h_1 => exact absurd rfl hstops.uncalled
  case h_2 => rfl

theorem isRead_group {inner : Phrase (.expression (.tier .comparison))}
    (h : inner.IsRead stop) : (group inner).IsRead stop := by
  refine isRead_of_atom fun levels ls rest hphrase hnesting hlow _ ↦ ?_
  obtain ⟨text, offset, inside, rfl, hinside⟩ := tokensOf_eq_cons hphrase
  obtain ⟨ls, ls', rfl, hls, hls'⟩ := tokensOf_eq_append hinside
  obtain ⟨text', offset', ls', rfl, hnil⟩ := tokensOf_eq_cons hls'
  have hinner : level stop levels 0 (ls ++ ⟨.rightParen, text', offset'⟩ :: rest) =
      .ok ⟨inner.term, Term.height inner.term, ⟨.rightParen, text', offset'⟩ :: rest⟩ :=
    h.level_eq comparison_fits hls hnesting hlow stops_rightParen
  obtain rfl := List.map_eq_nil_iff.mp hnil
  simp only [atom, List.cons_append, List.append_assoc, List.nil_append, hinner]
  rfl

theorem isRead_call {count : Nat} {f : Builtin} {hf : f.arity.accepts count = true}
    {c : Phrase (.arguments count)} (h : c.IsRead stop) : (call f hf c).IsRead stop := by
  refine isRead_of_atom fun levels ls rest hphrase hnesting hlow _ ↦ ?_
  obtain ⟨text, offset, inside, rfl, hinside⟩ := tokensOf_eq_cons hphrase
  obtain ⟨text', offset', ls, rfl, hls⟩ := tokensOf_eq_cons hinside
  have harguments := h levels ls rest hls hnesting (Nat.le_of_succ_le hlow)
  have hexpect : expect stop .leftParen "after function name"
      (⟨.leftParen, text', offset'⟩ :: (ls ++ rest)) = .ok (ls ++ rest) := rfl
  have hcount : List.length (α := Term String) c.term = count := c.length_arguments
  have hheight : checkHeight stop (Term.heightAll c.term + 1) rest =
      .ok (Term.heightAll c.term + 1) :=
    checkHeight_eq hlow
  simp only [atom, List.cons_append, Equation.call, Builtin.ofName?_name, hexpect, Except.ok_bind,
    harguments, hcount, hf, if_true, hheight]
  rfl

theorem isRead_signed {sign : Sign} {c : Phrase (.expression .unary)} (h : c.IsRead stop) :
    (signed sign c).IsRead stop := by
  intro levels least ls rest hphrase hnesting hlow _ hstops
  obtain ⟨text, offset, ls, rfl, hls⟩ := tokensOf_eq_cons hphrase
  have hsign : sign.token.sign? = some sign := by
    cases sign <;> rfl
  have hinner : level stop levels signStrength (ls ++ rest) =
      .ok ⟨c.term, Term.height c.term, rest⟩ :=
    h.level_eq unary_fits hls hnesting (Nat.le_of_succ_le hlow)
      ⟨unary_fits.looser_iff.mpr hstops.looser, hstops.uncalled⟩
  have hheight : checkHeight stop (Term.height c.term + 1) rest = .ok (Term.height c.term + 1) :=
    checkHeight_eq hlow
  refine ⟨rest.length, false, Nat.le_refl _, nofun, ?_⟩
  simp only [level, operand, List.cons_append, List.head?_cons, Option.bind_some, hsign,
    List.drop_one, List.tail_cons, hinner, Except.ok_bind, hheight]
  rfl

theorem isRead_unsigned {c : Phrase (.expression (.tier .power))} (h : c.IsRead stop) :
    (unsigned c).IsRead stop := by
  intro levels least ls rest hphrase hnesting hlow hleast hstops
  obtain ⟨fuel, compared, hfuel, hcompared, hlevel⟩ :=
    h levels least ls rest hphrase hnesting hlow hleast hstops
  refine ⟨fuel, compared, hfuel, fun htrue ↦ ?_, hlevel⟩
  cases hcompared htrue

theorem isRead_noArguments : noArguments.IsRead stop := by
  intro levels ls rest hphrase _ _
  obtain ⟨text, offset, ls, rfl, hnil⟩ := tokensOf_eq_cons hphrase
  obtain rfl := List.map_eq_nil_iff.mp hnil
  rfl

theorem count_le {count : Nat} :
    (c : Phrase (.moreArguments count)) → count ≤ c.tokens.length
  | noMore => Nat.zero_le _
  | nextArgument next more => by
    have hmore := more.count_le
    simp only [tokens, List.length_cons, List.length_append]
    omega

theorem isRead_firstArgument {count : Nat} {first : Phrase (.expression (.tier .comparison))}
    {more : Phrase (.moreArguments count)} (hfirst : first.IsRead stop) (hmore : more.IsRead stop) :
    (firstArgument first more).IsRead stop := by
  intro levels ls rest hphrase hnesting hlow
  obtain ⟨ls, ls', rfl, hls, hls'⟩ := tokensOf_eq_append hphrase
  have hnestings := Nat.max_le.mp hnesting
  have hlows := Nat.max_le.mp hlow
  have hlevel : level stop levels 0 (ls ++ (ls' ++ rest)) =
      .ok ⟨first.term, Term.height first.term, ls' ++ rest⟩ :=
    hfirst.level_eq comparison_fits hls hnestings.1 hlows.1 (by
      rw [tokensOf_append, hls']
      exact more.stops_more)
  have henough : count ≤ (ls ++ (ls' ++ rest)).length := by
    have hle := more.count_le
    rw [← hls', length_tokensOf] at hle
    simp only [List.length_append]
    omega
  rw [List.append_assoc]
  simp only [argumentList]
  split
  case h_1 l rest' hparen =>
    have htokens := congrArg tokensOf hparen
    rw [tokensOf_append, hls] at htokens
    exact absurd htokens first.tokens_append_ne_rightParen
  case h_2 => exact hmore levels _ _ _ ls' rest hls' hnestings.2 hlows.2 henough hlevel rfl

theorem isRead_noMore : noMore.IsRead stop := by
  intro levels fuel first lexemes ls rest hphrase _ _ _ hfirst hrest
  obtain ⟨text, offset, ls, rfl, hnil⟩ := tokensOf_eq_cons hphrase
  obtain rfl := List.map_eq_nil_iff.mp hnil
  have hheight : max first.height (Term.heightAll noMore.term) = first.height := Nat.max_zero _
  simp only [arguments, hfirst, Except.ok_bind, hrest, List.cons_append, List.nil_append, hheight]
  rfl

theorem isRead_nextArgument {count : Nat} {next : Phrase (.expression (.tier .comparison))}
    {more : Phrase (.moreArguments count)} (hnext : next.IsRead stop) (hmore : more.IsRead stop) :
    (nextArgument next more).IsRead stop := by
  intro levels fuel first lexemes ls rest hphrase hnesting hlow hcount hfirst hrest
  obtain ⟨text, offset, inside, rfl, hinside⟩ := tokensOf_eq_cons hphrase
  obtain ⟨ls, ls', rfl, hls, hls'⟩ := tokensOf_eq_append hinside
  have hnestings := Nat.max_le.mp hnesting
  have hlows := Nat.max_le.mp hlow
  have hlevel : level stop levels 0 (ls ++ (ls' ++ rest)) =
      .ok ⟨next.term, Term.height next.term, ls' ++ rest⟩ :=
    hnext.level_eq comparison_fits hls hnestings.1 hlows.1 (by
      rw [tokensOf_append, hls']
      exact more.stops_more)
  obtain ⟨fuel', hfuel⟩ := Nat.exists_eq_add_one_of_ne_zero (Nat.ne_zero_of_lt hcount)
  have hothers := hmore levels fuel' _ _ ls' rest hls' hnestings.2 hlows.2 (by omega) hlevel rfl
  rw [← hfuel] at hothers
  simp only [arguments, hfirst, Except.ok_bind, hrest, List.cons_append, List.append_assoc, hothers]
  rfl

theorem isRead {k : Category} (c : Phrase k) : c.IsRead stop := by
  induction c with
  | tier first tail ihfirst ihtail => exact isRead_tier ihfirst ihtail
  | done => exact isRead_done
  | link op h right tail ihright ihtail =>
    subst h
    exact isRead_link ihright ihtail
  | signed sign operand ih => exact isRead_signed ih
  | unsigned power ih => exact isRead_unsigned ih
  | number x => exact isRead_number x
  | name s => exact isRead_name s
  | call f h arguments ih => exact isRead_call ih
  | group inner ih => exact isRead_group ih
  | noArguments => exact isRead_noArguments
  | firstArgument first more ihfirst ihmore => exact isRead_firstArgument ihfirst ihmore
  | noMore => exact isRead_noMore
  | nextArgument next more ihnext ihmore => exact isRead_nextArgument ihnext ihmore

end Phrase

/-- A list of lexemes parses when it is that of a sentence whose term is low enough and whose
nesting leaves a level for the whole. -/
theorem parseLexemes_of_sentence {stop : Nat} {lexemes : List Lexeme}
    (c : Phrase (.expression (.tier .comparison))) (htokens : c.tokens = tokensOf lexemes)
    (hlow : Term.height c.term ≤ maxLevels) (hnesting : 1 + c.nesting ≤ maxLevels) :
    parseLexemes stop lexemes = .ok c.term := by
  obtain ⟨t, ts, hcons, -, -⟩ := c.tokens_eq_cons rfl
  obtain ⟨text, offset, rest, hlexemes, -⟩ := tokensOf_eq_cons (htokens.symm.trans hcons)
  have hnonempty : lexemes.isEmpty = false := by rw [hlexemes, List.isEmpty_cons]
  have hlevel : level stop maxLevels 0 (lexemes ++ []) = .ok ⟨c.term, Term.height c.term, []⟩ :=
    c.isRead.level_eq comparison_fits htokens.symm (Nat.one_add_le_iff.mp hnesting) hlow
      (stops_nil 0)
  rw [List.append_nil] at hlevel
  simp only [parseLexemes, hnonempty, Bool.false_eq_true, if_false, hlevel, Except.ok_bind]
  rfl

/-- A text that has lexemes parses when they are those of a sentence of the grammar, and gives the
term of its one derivation. Terms are at most 200 high; there are 200 levels at most, one for the
whole and one more for each level of nesting. -/
theorem parse_eq_ok_iff_sentence {source : String} {lexemes : List Lexeme}
    (h : tokenize source = .ok lexemes) :
    (∀ t, parse source = .ok t ↔
      ∃ c : Phrase (.expression (.tier .comparison)), c.tokens = lexemes.map (·.token) ∧
        c.term = t ∧ t.height ≤ 200 ∧ 1 + c.nesting ≤ 200) ∧
    (∀ c c' : Phrase (.expression (.tier .comparison)), c.tokens = lexemes.map (·.token) →
      c'.tokens = lexemes.map (·.token) → c = c') ∧
    ∀ t, parse source = .ok t → t.height ≤ 200 := by
  have hparse : parse source = parseLexemes source.utf8ByteSize lexemes := by
    rw [parse, h, Except.ok_bind]
  refine ⟨fun t ↦ ⟨fun ht ↦ parseLexemes_derives (hparse ▸ ht), ?_⟩,
    fun c c' hc hc' ↦ Phrase.tokens_inj (hc.trans hc'.symm), fun t ht ↦ ?_⟩
  · intro ⟨c, htokens, hterm, hlow, hnesting⟩
    subst hterm
    rw [hparse]
    exact parseLexemes_of_sentence c htokens hlow hnesting
  · obtain ⟨c, -, -, hlow, -⟩ := parseLexemes_derives (hparse ▸ ht)
    exact hlow

theorem parse_eq_ok_iff_sentence_signed_power :
    tokenize "-a ** b" =
        .ok [⟨.minus, ['-'], 0⟩, ⟨.name "a", ['a'], 1⟩, ⟨.starStar, ['*', '*'], 3⟩,
          ⟨.name "b", ['b'], 6⟩] ∧
      parse "-a ** b" = .ok (.signed .minus (.binary .pow (.var "a") (.var "b"))) := by
  have htokens : tokenize "-a ** b" =
      .ok [⟨.minus, ['-'], 0⟩, ⟨.name "a", ['a'], 1⟩, ⟨.starStar, ['*', '*'], 3⟩,
        ⟨.name "b", ['b'], 6⟩] := by
    rfl
  let a : Phrase (.expression (.tier .power)) :=
    .tier (.name "a")
      (.link .pow rfl (.unsigned (.tier (.name "b") .done)) .done)
  let c : Phrase (.expression (.tier .comparison)) :=
    .tier (.tier (.tier (.signed .minus (.unsigned a)) .done) .done) .done
  refine ⟨htokens, ((parse_eq_ok_iff_sentence htokens).1 _).mpr ⟨c, rfl, rfl, ?_, ?_⟩⟩
  · decide
  · decide

end SystemDynamics.Equation
