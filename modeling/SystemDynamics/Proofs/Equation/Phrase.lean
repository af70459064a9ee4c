import SystemDynamics.Equation.Grammar

namespace SystemDynamics.Equation

/-- The tiers of operators, from loosest to tightest. -/
inductive Tier where
  | comparison | sum | product | power
  deriving DecidableEq

/-- What an operand may be: an expression with operators of a tier, or one without. -/
inductive Rank where
  | tier (tier : Tier)
  | unary
  | atom
  deriving DecidableEq

namespace Tier

def first : Tier → Rank
  | comparison => .tier .sum
  | sum => .tier .product
  | product => .unary
  | power => .atom

def right : Tier → Rank
  | comparison => .tier .sum
  | sum => .tier .product
  | product | power => .unary

/-- The tier of the operators that may come after one: sums and products go on. -/
def again : Tier → Option Tier
  | sum => some .sum
  | product => some .product
  | comparison | power => none

end Tier

def Operator.tier : Operator → Tier
  | lt | le | gt | ge | eq | ne => .comparison
  | add | sub => .sum
  | mul | div => .product
  | pow => .power

def Operator.token : Operator → Token
  | add => .plus
  | sub => .minus
  | mul => .star
  | div => .slash
  | pow => .starStar
  | lt => .lt
  | le => .le
  | gt => .gt
  | ge => .ge
  | eq => .eqEq
  | ne => .bangEq

def Sign.token : Sign → Token
  | minus => .minus
  | plus => .plus

inductive Category where
  | expression (rank : Rank)
  /-- The operators of a tier with their right operands, after a first operand. -/
  | tail (tier : Option Tier)
  /-- So many arguments of a call, with the parenthesis that closes it. -/
  | arguments (count : Nat)
  | moreArguments (count : Nat)

/-- The phrases of a category. -/
inductive Phrase : Category → Type where
  | tier {tier : Tier} (first : Phrase (.expression tier.first)) (tail : Phrase (.tail tier)) :
    Phrase (.expression (.tier tier))
  | done {tier : Option Tier} : Phrase (.tail tier)
  | link {tier : Tier} (op : Operator) (h : op.tier = tier)
    (right : Phrase (.expression tier.right)) (tail : Phrase (.tail tier.again)) :
    Phrase (.tail tier)
  | signed (sign : Sign) (operand : Phrase (.expression .unary)) : Phrase (.expression .unary)
  | unsigned (power : Phrase (.expression (.tier .power))) : Phrase (.expression .unary)
  | number (x : Float) : Phrase (.expression .atom)
  | name (s : String) : Phrase (.expression .atom)
  | call {count : Nat} (f : Builtin) (h : f.arity.accepts count = true)
    (arguments : Phrase (.arguments count)) : Phrase (.expression .atom)
  | group (inner : Phrase (.expression (.tier .comparison))) : Phrase (.expression .atom)
  | noArguments : Phrase (.arguments 0)
  | firstArgument {count : Nat} (first : Phrase (.expression (.tier .comparison)))
    (more : Phrase (.moreArguments count)) : Phrase (.arguments (count + 1))
  | noMore : Phrase (.moreArguments 0)
  | nextArgument {count : Nat} (next : Phrase (.expression (.tier .comparison)))
    (more : Phrase (.moreArguments count)) : Phrase (.moreArguments (count + 1))

/-- What a phrase stands for: a tail makes a term of the term before it. -/
abbrev Category.Meaning : Category → Type
  | expression _ => Term String
  | tail _ => Term String → Term String
  | arguments _ | moreArguments _ => List (Term String)

namespace Phrase

@[simp] def tokens : {k : Category} → Phrase k → List Token
  | _, tier first tail => first.tokens ++ tail.tokens
  | _, done => []
  | _, link op _ right tail => op.token :: (right.tokens ++ tail.tokens)
  | _, signed sign operand => sign.token :: operand.tokens
  | _, unsigned power => power.tokens
  | _, number x => [.number x]
  | _, name s => [.name s]
  | _, call f _ arguments => .name f.name :: .leftParen :: arguments.tokens
  | _, group inner => .leftParen :: (inner.tokens ++ [.rightParen])
  | _, noArguments => [.rightParen]
  | _, firstArgument first more => first.tokens ++ more.tokens
  | _, noMore => [.rightParen]
  | _, nextArgument next more => .comma :: (next.tokens ++ more.tokens)

/-- Operators of a tier group to the left. -/
def term : {k : Category} → Phrase k → k.Meaning
  | _, tier first tail => tail.term first.term
  | _, done => fun left ↦ left
  | _, link op _ right tail => fun left ↦ tail.term (.binary op left right.term)
  | _, signed sign operand => Term.signed sign operand.term
  | _, unsigned power => power.term
  | _, number x => Term.number x
  | _, name s => Term.var s
  | _, call f _ arguments => Term.call f arguments.term
  | _, group inner => inner.term
  | _, noArguments => []
  | _, firstArgument first more => first.term :: more.term
  | _, noMore => []
  | _, nextArgument next more => next.term :: more.term

/-- The levels of nesting within a phrase: a parenthesis, an argument, the operand of a sign and the
right operand of an operator lie one level further down. -/
def nesting : {k : Category} → Phrase k → Nat
  | _, tier first tail => max first.nesting tail.nesting
  | _, done => 0
  | _, link _ _ right tail => max (right.nesting + 1) tail.nesting
  | _, signed _ operand => operand.nesting + 1
  | _, unsigned power => power.nesting
  | _, number _ => 0
  | _, name _ => 0
  | _, call _ _ arguments => arguments.nesting
  | _, group inner => inner.nesting + 1
  | _, noArguments => 0
  | _, firstArgument first more => max (first.nesting + 1) more.nesting
  | _, noMore => 0
  | _, nextArgument next more => max (next.nesting + 1) more.nesting

end Phrase

def Tier.strength : Tier → Nat
  | comparison => 10
  | sum => 20
  | product => 30
  | power => 50

def Tier.operandStrength : Tier → Nat
  | comparison => 11
  | sum => 21
  | product => 31
  | power => 50

theorem binding?_token (op : Operator) :
    op.token.binding? = some ⟨op, op.tier.strength, op.tier.operandStrength⟩ := by
  cases op <;> rfl

theorem binding?_eq_some {t : Token} {b : Binding} (h : t.binding? = some b) :
    t = b.op.token ∧ b = ⟨b.op, b.op.tier.strength, b.op.tier.operandStrength⟩ := by
  cases t <;> simp only [Token.binding?, Option.some.injEq, reduceCtorEq] at h <;> subst h <;>
    exact ⟨rfl, rfl⟩

theorem Operator.token_inj {op op' : Operator} (h : op.token = op'.token) : op = op' := by
  have hb := binding?_token op
  rw [h, binding?_token, Option.some_inj] at hb
  exact (congrArg Binding.op hb).symm

theorem Builtin.name_inj {f f' : Builtin} (h : f.name = f'.name) : f = f' := by
  have hf := ofName?_name f
  rw [h, ofName?_name, Option.some_inj] at hf
  exact hf.symm

theorem Sign.token_inj {s s' : Sign} (h : s.token = s'.token) : s = s' := by
  cases s <;> cases s' <;> first | rfl | cases h

/-- What comes next is no operator that binds so tightly. -/
def Looser (bound : Nat) (rest : List Token) : Prop :=
  ∀ t ∈ rest.head?, ∀ b ∈ t.binding?, b.strength < bound

structure Stops (bound : Nat) (rest : List Token) : Prop where
  looser : Looser bound rest
  uncalled : rest.head? ≠ some .leftParen

theorem Looser.mono {bound bound' : Nat} {rest : List Token} (h : Looser bound rest)
    (hle : bound ≤ bound') : Looser bound' rest :=
  fun t ht b hb ↦ Nat.lt_of_lt_of_le (h t ht b hb) hle

theorem Stops.mono {bound bound' : Nat} {rest : List Token} (h : Stops bound rest)
    (hle : bound ≤ bound') : Stops bound' rest :=
  ⟨h.looser.mono hle, h.uncalled⟩

theorem looser_nil (bound : Nat) : Looser bound [] := by
  intro t ht
  cases ht

theorem stops_nil (bound : Nat) : Stops bound [] :=
  ⟨looser_nil bound, nofun⟩

theorem looser_cons {bound : Nat} {t : Token} {rest : List Token}
    (h : ∀ b ∈ t.binding?, b.strength < bound) : Looser bound (t :: rest) := by
  intro u hu
  obtain rfl := Option.some.inj hu
  exact h

theorem looser_operator_iff {bound : Nat} {op : Operator} {rest : List Token} :
    Looser bound (op.token :: rest) ↔ op.tier.strength < bound := by
  constructor
  · intro h
    exact h op.token rfl _ (binding?_token op)
  · intro h
    refine looser_cons fun b hb ↦ ?_
    rw [binding?_token] at hb
    obtain rfl := Option.some.inj hb
    exact h

theorem stops_operator {bound : Nat} {op : Operator} {rest : List Token}
    (h : op.tier.strength < bound) : Stops bound (op.token :: rest) := by
  refine ⟨looser_operator_iff.mpr h, fun hparen ↦ ?_⟩
  cases op <;> cases Option.some.inj hparen

theorem not_stops_operator {bound : Nat} {op : Operator} {rest : List Token}
    (h : bound ≤ op.tier.strength) : ¬ Stops bound (op.token :: rest) :=
  fun hstops ↦ Nat.not_lt.mpr h (looser_operator_iff.mp hstops.looser)

theorem not_stops_leftParen {bound : Nat} (rest : List Token) :
    ¬ Stops bound (.leftParen :: rest) :=
  fun h ↦ h.uncalled rfl

theorem stops_rightParen {bound : Nat} {rest : List Token} : Stops bound (.rightParen :: rest) :=
  ⟨looser_cons nofun, nofun⟩

theorem stops_comma {bound : Nat} {rest : List Token} : Stops bound (.comma :: rest) :=
  ⟨looser_cons nofun, nofun⟩

namespace Phrase

theorem stops_more {count : Nat} (c : Phrase (.moreArguments count)) {bound : Nat}
    {rest : List Token} : Stops bound (c.tokens ++ rest) := by
  cases c with
  | noMore => exact stops_rightParen
  | nextArgument next more => exact stops_comma

theorem stops_tail {tier : Option Tier} (c : Phrase (.tail tier)) {bound : Nat}
    {rest : List Token} (h : Stops bound rest) (ht : ∀ t ∈ tier, t.strength < bound) :
    Stops bound (c.tokens ++ rest) := by
  cases c with
  | done => exact h
  | link op hop right tail =>
    subst hop
    exact stops_operator (ht op.tier rfl)

theorem tokens_eq_cons {k : Category} (c : Phrase k) {r : Rank} (hk : k = .expression r) :
    ∃ t ts, c.tokens = t :: ts ∧ t ≠ .rightParen ∧ (r = .atom → t.sign? = none) := by
  induction c generalizing r with
  | @tier t first tail ihfirst =>
    obtain ⟨token, ts, htokens, hparen, hsign⟩ := ihfirst rfl
    refine ⟨token, ts ++ tail.tokens, by rw [tokens, htokens, List.cons_append], hparen, ?_⟩
    intro hatom
    subst hatom
    cases hk
  | signed sign operand =>
    refine ⟨sign.token, operand.tokens, rfl, by cases sign <;> exact Token.noConfusion, ?_⟩
    intro hatom
    subst hatom
    cases hk
  | unsigned power ih =>
    obtain ⟨token, ts, htokens, hparen, -⟩ := ih rfl
    refine ⟨token, ts, htokens, hparen, ?_⟩
    intro hatom
    subst hatom
    cases hk
  | number x => exact ⟨_, _, rfl, Token.noConfusion, fun _ ↦ rfl⟩
  | name s => exact ⟨_, _, rfl, Token.noConfusion, fun _ ↦ rfl⟩
  | call f h arguments => exact ⟨_, _, rfl, Token.noConfusion, fun _ ↦ rfl⟩
  | group inner => exact ⟨_, _, rfl, Token.noConfusion, fun _ ↦ rfl⟩
  | _ => cases hk

theorem tokens_append_ne_rightParen {r : Rank} (c : Phrase (.expression r))
    {rest rest' : List Token} : c.tokens ++ rest ≠ .rightParen :: rest' := by
  obtain ⟨t, ts, htokens, hparen, -⟩ := c.tokens_eq_cons rfl
  rw [htokens, List.cons_append]
  intro h
  exact hparen (List.cons.inj h).1

theorem power_append_ne_sign (c : Phrase (.expression (.tier .power))) {sign : Sign}
    {rest rest' : List Token} : c.tokens ++ rest ≠ sign.token :: rest' := by
  cases c with
  | tier first tail =>
    obtain ⟨t, ts, htokens, -, hsign⟩ := first.tokens_eq_cons rfl
    rw [tokens, htokens, List.cons_append, List.cons_append]
    intro h
    have ht := hsign rfl
    rw [(List.cons.inj h).1] at ht
    cases sign <;> cases ht

end Phrase

def Rank.ceiling : Rank → Nat
  | tier t => t.strength
  | unary => 50
  | atom => 51

def Category.ceiling : Category → Nat
  | expression rank => rank.ceiling
  | tail (some tier) => tier.strength
  | tail none | arguments _ | moreArguments _ => 51

theorem Tier.strength_lt_first (t : Tier) : t.strength < t.first.ceiling := by
  cases t <;> decide

theorem Tier.operandStrength_le (t : Tier) : t.operandStrength ≤ t.right.ceiling := by
  cases t <;> decide

theorem Tier.strength_le_again (t : Tier) : t.strength ≤ (Category.tail t.again).ceiling := by
  cases t <;> decide

/-- A category without the number of arguments, which the tokens must tell. -/
@[simp] def Category.uncounted : Category → Category
  | arguments _ => .arguments 0
  | moreArguments _ => .moreArguments 0
  | k => k

namespace Phrase

theorem stops_first {t : Tier} (c : Phrase (.tail t)) {rest : List Token}
    (h : Stops t.strength rest) : Stops t.first.ceiling (c.tokens ++ rest) := by
  have hlt := t.strength_lt_first
  refine c.stops_tail (h.mono (Nat.le_of_lt hlt)) ?_
  intro t' ht'
  obtain rfl := Option.some.inj ht'
  exact hlt

theorem stops_right {t : Tier} (c : Phrase (.tail t.again)) {rest : List Token}
    (h : Stops t.strength rest) : Stops t.operandStrength (c.tokens ++ rest) := by
  refine c.stops_tail (h.mono (by cases t <;> decide)) ?_
  intro t' ht'
  cases t <;> cases ht' <;> decide

/-- The tokens of a phrase tell it from all others of its category, whatever comes after them, as
long as it does not go on with the phrase. -/
def Determined {k : Category} (c : Phrase k) : Prop :=
  ∀ {k' : Category} (c' : Phrase k'), k.uncounted = k'.uncounted → ∀ {rest rest' : List Token},
    c.tokens ++ rest = c'.tokens ++ rest' → Stops k.ceiling rest → Stops k'.ceiling rest' →
    (⟨k, c⟩ : Σ k, Phrase k) = ⟨k', c'⟩ ∧ rest = rest'

theorem determined_tier {t : Tier} {first : Phrase (.expression t.first)}
    {tail : Phrase (.tail (some t))} (ihfirst : first.Determined) (ihtail : tail.Determined) :
    (tier first tail).Determined := by
  intro k' c' hk rest rest' h hrest hrest'
  cases c' with
  | @tier t' first' tail' =>
    simp only [Category.uncounted, Category.expression.injEq, Rank.tier.injEq] at hk
    subst hk
    simp only [tokens, List.append_assoc] at h
    obtain ⟨hfirst, h⟩ := ihfirst first' rfl h (tail.stops_first hrest) (tail'.stops_first hrest')
    obtain ⟨htail, rfl⟩ := ihtail tail' rfl h hrest hrest'
    cases hfirst
    cases htail
    exact ⟨rfl, rfl⟩
  | _ => simp [Category.uncounted] at hk

theorem determined_done {o : Option Tier} : (done : Phrase (.tail o)).Determined := by
  intro k' c' hk rest rest' h hrest hrest'
  cases c' with
  | @done o' =>
    simp only [Category.uncounted, Category.tail.injEq] at hk
    subst hk
    exact ⟨rfl, h⟩
  | link op' hop' right' tail' =>
    simp only [Category.uncounted, Category.tail.injEq] at hk
    subst hk hop'
    simp only [tokens, List.nil_append, List.cons_append] at h
    rw [h] at hrest
    exact absurd hrest (not_stops_operator (Nat.le_refl _))
  | _ => simp [Category.uncounted] at hk

theorem determined_link {op : Operator} {right : Phrase (.expression op.tier.right)}
    {tail : Phrase (.tail op.tier.again)} (ihright : right.Determined) (ihtail : tail.Determined) :
    (link op rfl right tail).Determined := by
  intro k' c' hk rest rest' h hrest hrest'
  cases c' with
  | done =>
    simp only [Category.uncounted, Category.tail.injEq] at hk
    subst hk
    simp only [tokens, List.nil_append, List.cons_append] at h
    rw [← h] at hrest'
    exact absurd hrest' (not_stops_operator (Nat.le_refl _))
  | link op' hop' right' tail' =>
    subst hop'
    simp only [tokens, List.cons_append, List.append_assoc, List.cons.injEq] at h
    obtain rfl := Operator.token_inj h.1
    have hle := op.tier.operandStrength_le
    obtain ⟨hright, h⟩ := ihright right' rfl h.2 ((tail.stops_right hrest).mono hle)
      ((tail'.stops_right hrest').mono hle)
    have hagain := op.tier.strength_le_again
    obtain ⟨htail, rfl⟩ := ihtail tail' rfl h (hrest.mono hagain) (hrest'.mono hagain)
    cases hright
    cases htail
    exact ⟨rfl, rfl⟩
  | _ => simp [Category.uncounted] at hk

theorem determined_signed {sign : Sign} {operand : Phrase (.expression .unary)}
    (ih : operand.Determined) : (signed sign operand).Determined := by
  intro k' c' hk rest rest' h hrest hrest'
  cases c' with
  | signed sign' operand' =>
    simp only [tokens, List.cons_append, List.cons.injEq] at h
    obtain rfl := Sign.token_inj h.1
    obtain ⟨hoperand, rfl⟩ := ih operand' rfl h.2 hrest hrest'
    cases hoperand
    exact ⟨rfl, rfl⟩
  | unsigned power' => exact absurd h.symm power'.power_append_ne_sign
  | _ => simp [Category.uncounted] at hk

theorem determined_unsigned {power : Phrase (.expression (.tier .power))}
    (ih : power.Determined) : (unsigned power).Determined := by
  intro k' c' hk rest rest' h hrest hrest'
  cases c' with
  | signed sign' operand' => exact absurd h power.power_append_ne_sign
  | unsigned power' =>
    obtain ⟨hpower, rfl⟩ := ih power' rfl h hrest hrest'
    cases hpower
    exact ⟨rfl, rfl⟩
  | _ => simp [Category.uncounted] at hk

theorem determined_number {x : Float} : (number x).Determined := by
  intro k' c' hk rest rest' h hrest hrest'
  cases c' with
  | number x' =>
    simp only [tokens, List.cons_append, List.nil_append, List.cons.injEq,
      Token.number.injEq] at h
    obtain ⟨rfl, rfl⟩ := h
    exact ⟨rfl, rfl⟩
  | _ => simp [Category.uncounted, tokens] at hk h

theorem determined_name {s : String} : (name s).Determined := by
  intro k' c' hk rest rest' h hrest hrest'
  cases c' with
  | name s' =>
    simp only [tokens, List.cons_append, List.nil_append, List.cons.injEq, Token.name.injEq] at h
    obtain ⟨rfl, rfl⟩ := h
    exact ⟨rfl, rfl⟩
  | call f' hf' arguments' =>
    simp only [tokens, List.cons_append, List.nil_append, List.cons.injEq] at h
    rw [h.2] at hrest
    exact absurd hrest (not_stops_leftParen _)
  | _ => simp [Category.uncounted, tokens] at hk h

theorem determined_call {count : Nat} {f : Builtin} {hf : f.arity.accepts count = true}
    {arguments : Phrase (.arguments count)} (ih : arguments.Determined) :
    (call f hf arguments).Determined := by
  intro k' c' hk rest rest' h hrest hrest'
  cases c' with
  | name s' =>
    simp only [tokens, List.cons_append, List.nil_append, List.cons.injEq] at h
    rw [← h.2] at hrest'
    exact absurd hrest' (not_stops_leftParen _)
  | call f' hf' arguments' =>
    simp only [tokens, List.cons_append, List.cons.injEq, Token.name.injEq, true_and] at h
    obtain rfl := Builtin.name_inj h.1
    obtain ⟨harguments, rfl⟩ := ih arguments' rfl h.2 hrest hrest'
    cases harguments
    exact ⟨rfl, rfl⟩
  | _ => simp [Category.uncounted, tokens] at hk h

theorem determined_group {inner : Phrase (.expression (.tier .comparison))}
    (ih : inner.Determined) : (group inner).Determined := by
  intro k' c' hk rest rest' h hrest hrest'
  cases c' with
  | group inner' =>
    simp only [tokens, List.cons_append, List.append_assoc, List.cons.injEq, true_and,
      List.nil_append] at h
    obtain ⟨hinner, hclosed⟩ := ih inner' rfl h stops_rightParen stops_rightParen
    cases hinner
    exact ⟨rfl, (List.cons.inj hclosed).2⟩
  | _ => simp [Category.uncounted, tokens] at hk h

theorem determined_noArguments : noArguments.Determined := by
  intro k' c' hk rest rest' h hrest hrest'
  cases c' with
  | noArguments => exact ⟨rfl, (List.cons.inj h).2⟩
  | firstArgument first' more' =>
    simp only [tokens, List.append_assoc] at h
    exact absurd h.symm first'.tokens_append_ne_rightParen
  | _ => simp [Category.uncounted] at hk

theorem determined_firstArgument {count : Nat} {first : Phrase (.expression (.tier .comparison))}
    {more : Phrase (.moreArguments count)} (ihfirst : first.Determined)
    (ihmore : more.Determined) : (firstArgument first more).Determined := by
  intro k' c' hk rest rest' h hrest hrest'
  cases c' with
  | noArguments =>
    simp only [tokens, List.append_assoc] at h
    exact absurd h first.tokens_append_ne_rightParen
  | firstArgument first' more' =>
    simp only [tokens, List.append_assoc] at h
    obtain ⟨hfirst, h⟩ := ihfirst first' rfl h more.stops_more more'.stops_more
    obtain ⟨hmore, rfl⟩ := ihmore more' rfl h hrest hrest'
    cases hfirst
    cases hmore
    exact ⟨rfl, rfl⟩
  | _ => simp [Category.uncounted] at hk

theorem determined_noMore : noMore.Determined := by
  intro k' c' hk rest rest' h hrest hrest'
  cases c' with
  | noMore => exact ⟨rfl, (List.cons.inj h).2⟩
  | _ => simp [Category.uncounted, tokens] at hk h

theorem determined_nextArgument {count : Nat} {next : Phrase (.expression (.tier .comparison))}
    {more : Phrase (.moreArguments count)} (ihnext : next.Determined)
    (ihmore : more.Determined) : (nextArgument next more).Determined := by
  intro k' c' hk rest rest' h hrest hrest'
  cases c' with
  | nextArgument next' more' =>
    simp only [tokens, List.cons_append, List.append_assoc, List.cons.injEq, true_and] at h
    obtain ⟨hnext, h⟩ := ihnext next' rfl h more.stops_more more'.stops_more
    obtain ⟨hmore, rfl⟩ := ihmore more' rfl h hrest hrest'
    cases hnext
    cases hmore
    exact ⟨rfl, rfl⟩
  | _ => simp [Category.uncounted, tokens] at hk h

/-- Every phrase is determined: the grammar is unambiguous. -/
theorem determined {k : Category} (c : Phrase k) : c.Determined := by
  induction c with
  | tier first tail ihfirst ihtail => exact determined_tier ihfirst ihtail
  | done => exact determined_done
  | link op h right tail ihright ihtail =>
    subst h
    exact determined_link ihright ihtail
  | signed sign operand ih => exact determined_signed ih
  | unsigned power ih => exact determined_unsigned ih
  | number x => exact determined_number
  | name s => exact determined_name
  | call f hf arguments ih => exact determined_call ih
  | group inner ih => exact determined_group ih
  | noArguments => exact determined_noArguments
  | firstArgument first more ihfirst ihmore => exact determined_firstArgument ihfirst ihmore
  | noMore => exact determined_noMore
  | nextArgument next more ihnext ihmore => exact determined_nextArgument ihnext ihmore

theorem tokens_inj {k : Category} {c c' : Phrase k} (h : c.tokens = c'.tokens) : c = c' := by
  have happend : c.tokens ++ [] = c'.tokens ++ [] := by rw [h]
  obtain ⟨hphrase, -⟩ := c.determined c' rfl happend (stops_nil _) (stops_nil _)
  exact eq_of_heq (Sigma.mk.inj hphrase).2

end Phrase

end SystemDynamics.Equation
