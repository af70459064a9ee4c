import SystemDynamics.Proofs.Simulation.ByName
import SystemDynamics.Proofs.Simulation.Stages

namespace SystemDynamics

namespace RungeKutta

variable {α ι : Type}

/-- An integrator with buffers for states of a dimension. -/
structure Fits (n : Nat) (s : RungeKutta α) : Prop where
  k1 : s.k1.length = n
  k2 : s.k2.length = n
  k3 : s.k3.length = n
  k4 : s.k4.length = n
  probe : s.probe.length = n

theorem fits_ofDimension [OfScientific α] (n : Nat) : (ofDimension n : RungeKutta α).Fits n := by
  constructor <;> simp [ofDimension]

theorem length_offset [Add α] [Mul α] (scale : α) (buffer base k : List α) :
    (offset scale buffer base k).length = buffer.length := by
  fun_induction offset scale buffer base k with
  | case1 _ buffer _ base _ k ih => rw [List.length_cons, List.length_cons, ih]
  | case2 => rfl

theorem Fits.read {n : Nat} {s : RungeKutta α} (hs : s.Fits n) (b : Buffer) :
    (s.read b).length = n := by
  cases b with
  | k1 => exact hs.k1
  | k2 => exact hs.k2
  | k3 => exact hs.k3
  | k4 => exact hs.k4

theorem Fits.write {n : Nat} {s : RungeKutta α} (hs : s.Fits n) {k : List α} (hk : k.length = n)
    (b : Buffer) : (s.write k b).Fits n := by
  cases b with
  | k1 => exact { hs with k1 := hk }
  | k2 => exact { hs with k2 := hk }
  | k3 => exact { hs with k3 := hk }
  | k4 => exact { hs with k4 := hk }

section

variable [Add α] [Mul α] [OfScientific α] {n : Nat} {s : RungeKutta α} (hs : s.Fits n) (h : α)
  (b : Buffer)

include hs

theorem Fits.target {y : List α} (hy : y.length = n) : (s.target h y b).length = n := by
  cases hsource : b.source? with
  | none => rwa [target_of_none hsource]
  | some b' => rw [target_of_some hsource, length_offset, hs.probe]

theorem Fits.aim (y : List α) : (s.aim h y b).Fits n := by
  cases hsource : b.source? with
  | none => rwa [aim_of_none hsource]
  | some b' =>
    rw [aim_of_some hsource]
    exact { hs with probe := (length_offset ..).trans hs.probe }

end

theorem length_combine [Add α] [Mul α] [Div α] [OfScientific α] (h : α)
    (y k1 k2 k3 k4 : List α) : (combine h y k1 k2 k3 k4).length = y.length := by
  fun_induction combine h y k1 k2 k3 k4 with
  | case1 _ y _ k1 _ k2 _ k3 _ k4 ih => rw [List.length_cons, List.length_cons, ih]
  | case2 => rfl

theorem offset_map [Add α] [Mul α] (scale : α) {buffer : List α} {is : List ι}
    (h : buffer.length = is.length) (y k : ι → α) :
    offset scale buffer (is.map y) (is.map k) = is.map fun i ↦ y i + scale * k i := by
  induction is generalizing buffer with
  | nil =>
    obtain rfl := List.length_eq_zero_iff.mp h
    rfl
  | cons i is ih =>
    obtain ⟨b, buffer, rfl⟩ := List.exists_cons_of_length_eq_add_one h
    rw [List.map_cons, List.map_cons, offset, ih (by simpa using h), List.map_cons]

theorem combine_map [Add α] [Mul α] [Div α] [OfScientific α] (h : α) (is : List ι)
    (y k1 k2 k3 k4 : ι → α) :
    combine h (is.map y) (is.map k1) (is.map k2) (is.map k3) (is.map k4) =
      is.map fun i ↦ y i + h / 6.0 * (k1 i + 2.0 * k2 i + 2.0 * k3 i + k4 i) := by
  induction is with
  | nil => rfl
  | cons i is ih => rw [List.map_cons, List.map_cons, List.map_cons, List.map_cons, List.map_cons,
      combine, ih, List.map_cons]

variable {σ ε : Type} {inv : σ → Prop} {ids : List String} {rate : MachineRate σ Float ε}
  {slopes : Float → ByName.Values → Option ByName.Values}

/-- The rates of a machine are slopes by name, as long as an invariant of the machine holds. -/
def RateAgrees (inv : σ → Prop) (ids : List String) (rate : MachineRate σ Float ε)
    (slopes : Float → ByName.Values → Option ByName.Values) : Prop :=
  ∀ w t y buffer, inv w →
    match slopes t y with
    | some k => ∃ w', rate w t (ids.map y) buffer = (w', ids.map k, none) ∧ inv w'
    | none => ∃ w' k e, rate w t (ids.map y) buffer = (w', k, some e)

namespace RateAgrees

variable (hr : RateAgrees inv ids rate slopes) {w w' : σ} (hw : inv w) {t : Float}
  {y : ByName.Values} {buffer k : List Float}

include hr hw

theorem exists_slopes (hrate : rate w t (ids.map y) buffer = (w', k, none)) :
    ∃ k', slopes t y = some k' ∧ k = ids.map k' ∧ inv w' := by
  have hanswer := hr w t y buffer hw
  cases hslopes : slopes t y with
  | none =>
    rw [hslopes] at hanswer
    obtain ⟨_, _, e, hfails⟩ := hanswer
    rw [hfails] at hrate
    exact absurd hrate (by simp)
  | some k' =>
    rw [hslopes] at hanswer
    obtain ⟨w'', hgives, hw''⟩ := hanswer
    rw [hgives] at hrate
    simp only [Prod.mk.injEq, and_true] at hrate
    obtain ⟨rfl, rfl⟩ := hrate
    exact ⟨k', rfl, rfl, hw''⟩

theorem slopes_eq_none {e : ε} (hrate : rate w t (ids.map y) buffer = (w', k, some e)) :
    slopes t y = none := by
  have hanswer := hr w t y buffer hw
  cases hslopes : slopes t y with
  | none => rfl
  | some k' =>
    rw [hslopes] at hanswer
    obtain ⟨w'', hgives, -⟩ := hanswer
    rw [hgives] at hrate
    exact absurd hrate (by simp)

end RateAgrees

/-- The state of a stage by name, from the slopes at the stages. -/
def stateAt (h : Float) (y : ByName.Values) (ks : Buffer → ByName.Values) (b : Buffer) :
    ByName.Values :=
  match b.source? with
  | none => y
  | some b' => fun s ↦ y s + b.reach h * ks b' s

/-- What the slopes are at the first stages of a step, so many of them. -/
def SlopesBefore (slopes : Float → ByName.Values → Option ByName.Values) (t h : Float)
    (y : ByName.Values) (i : Nat) (ks : Buffer → ByName.Values) : Prop :=
  ∀ b, b.rank < i → slopes (b.time t h) (stateAt h y ks b) = some (ks b)

section

variable {t h : Float} {y : ByName.Values} {ks : Buffer → ByName.Values}

namespace SlopesBefore

variable {i : Nat} (hks : SlopesBefore slopes t h y i ks)

include hks

theorem first (hi : 0 < i) : slopes t y = some (ks .k1) :=
  hks .k1 hi

theorem second (hi : 1 < i) :
    (slopes (t + 0.5 * h) fun s ↦ y s + 0.5 * h * ks .k1 s) = some (ks .k2) :=
  hks .k2 hi

theorem third (hi : 2 < i) :
    (slopes (t + 0.5 * h) fun s ↦ y s + 0.5 * h * ks .k2 s) = some (ks .k3) :=
  hks .k3 hi

theorem fourth (hi : 3 < i) : (slopes (t + h) fun s ↦ y s + h * ks .k3 s) = some (ks .k4) :=
  hks .k4 hi

theorem step_eq_some (hi : i = 4) :
    ByName.step slopes t h y = some fun s ↦
      y s + h / 6.0 * (ks .k1 s + 2.0 * ks .k2 s + 2.0 * ks .k3 s + ks .k4 s) := by
  subst hi
  simp only [ByName.step, hks.first, hks.second, hks.third, hks.fourth, Option.bind_eq_bind,
    Option.bind_some, Option.pure_def, Nat.reduceLT]

theorem step_eq_none {b : Buffer} (hi : i = b.rank)
    (hnone : slopes (b.time t h) (stateAt h y ks b) = none) :
    ByName.step slopes t h y = none := by
  subst hi
  rw [ByName.step]
  cases b with
  | k1 =>
    have h1 : slopes t y = none := hnone
    rw [h1]
    rfl
  | k2 =>
    have h2 : (slopes (t + 0.5 * h) fun s ↦ y s + 0.5 * h * ks .k1 s) = none := hnone
    simp only [hks.first (by decide), h2, Option.bind_eq_bind, Option.bind_some, Option.bind_none]
  | k3 =>
    have h3 : (slopes (t + 0.5 * h) fun s ↦ y s + 0.5 * h * ks .k2 s) = none := hnone
    simp only [hks.first (by decide), hks.second (by decide), h3, Option.bind_eq_bind,
      Option.bind_some, Option.bind_none]
  | k4 =>
    have h4 : (slopes (t + h) fun s ↦ y s + h * ks .k3 s) = none := hnone
    simp only [hks.first (by decide), hks.second (by decide), hks.third (by decide), h4,
      Option.bind_eq_bind, Option.bind_some, Option.bind_none]

end SlopesBefore

theorem stateAt_update {b b' : Buffer} (hle : b'.rank ≤ b.rank) (k : ByName.Values) :
    stateAt h y (Function.update ks b k) b' = stateAt h y ks b' := by
  unfold stateAt
  cases hsource : b'.source? with
  | none => rfl
  | some c =>
    have hlt := Nat.lt_of_lt_of_le (Buffer.rank_source hsource) hle
    simp only [Function.update_of_ne (Buffer.ne_of_rank_lt hlt)]

theorem target_map {s : RungeKutta Float} (hs : s.Fits ids.length) {b : Buffer}
    (hread : ∀ b', b'.rank < b.rank → s.read b' = ids.map (ks b')) :
    s.target h (ids.map y) b = ids.map (stateAt h y ks b) := by
  cases hsource : b.source? with
  | none => rw [target_of_none hsource, stateAt, hsource]
  | some b' =>
    rw [target_of_some hsource, hread b' (Buffer.rank_source hsource), offset_map _ hs.probe,
      stateAt, hsource]

theorem Reached.slopesBefore (hr : RateAgrees inv ids rate slopes) {w w₁ : σ} (hw : inv w)
    {s s₁ : RungeKutta Float} (hs : s.Fits ids.length) {i : Nat}
    (hreached : Reached rate t h (ids.map y) w s i w₁ s₁) :
    inv w₁ ∧ s₁.Fits ids.length ∧ ∃ ks, SlopesBefore slopes t h y i ks ∧
      ∀ b, b.rank < i → s₁.read b = ids.map (ks b) := by
  induction hreached with
  | start => exact ⟨hw, hs, fun _ ↦ y, fun b hb ↦ absurd hb b.rank.not_lt_zero,
      fun b hb ↦ absurd hb b.rank.not_lt_zero⟩
  | @next b w₁ w₂ s₁ k _ hrate ih =>
    obtain ⟨hw₁, hs₁, ks, hks, hread⟩ := ih
    rw [target_map hs₁ hread] at hrate
    obtain ⟨k', hslopes, rfl, hw₂⟩ := hr.exists_slopes hw₁ hrate
    refine ⟨hw₂, (hs₁.aim h b _).write (List.length_map _) b, Function.update ks b k', ?_, ?_⟩
    -- What a stage reads comes before it, so its own slopes change nothing there.
    · intro b' hb'
      rw [stateAt_update (Nat.lt_succ_iff.mp hb')]
      rcases Buffer.lt_succ_rank hb' with rfl | hlt
      · rw [hslopes, Function.update_self]
      · rw [hks b' hlt, Function.update_of_ne (Buffer.ne_of_rank_lt hlt)]
    · intro b' hb'
      rw [read_write]
      rcases Buffer.lt_succ_rank hb' with rfl | hlt
      · rw [if_pos rfl, Function.update_self]
      · have hne := Buffer.ne_of_rank_lt hlt
        rw [if_neg hne, read_aim, hread b' hlt, Function.update_of_ne hne]

/-- A step takes the step by name, or it fails at the first stage that has no slopes by name. -/
theorem stepWith_by_name (hr : RateAgrees inv ids rate slopes) {w : σ} (hw : inv w)
    {s : RungeKutta Float} (hs : s.Fits ids.length) (t h : Float) (y : ByName.Values) :
    (∃ y' w' s', ByName.step slopes t h y = some y' ∧
      s.stepWith rate w t h (ids.map y) = (w', s', .ok (ids.map y')) ∧ inv w' ∧
      s'.Fits ids.length) ∨
    ∃ b ks w₁ buffer w' s' k e, SlopesBefore slopes t h y b.rank ks ∧
      slopes (b.time t h) (stateAt h y ks b) = none ∧
      s.stepWith rate w t h (ids.map y) = (w', s', .error e) ∧ inv w₁ ∧
      rate w₁ (b.time t h) (ids.map (stateAt h y ks b)) buffer = (w', k, some e) := by
  rcases stepWith_cases rate t h (ids.map y) w s with
    ⟨w', s', hstep, hreached⟩ | ⟨b, w₁, s₁, w', k, e, hstep, hreached, hrate⟩
  · obtain ⟨hw', hs', ks, hks, hread⟩ := hreached.slopesBefore hr hw hs
    refine .inl ⟨_, w', s', hks.step_eq_some rfl, ?_, hw', hs'⟩
    have hk (b : Buffer) : s'.read b = ids.map (ks b) := hread b b.rank_lt
    rw [hstep, ← combine_map, ← hk .k1, ← hk .k2, ← hk .k3, ← hk .k4]
    rfl
  · obtain ⟨hw₁, hs₁, ks, hks, hread⟩ := hreached.slopesBefore hr hw hs
    rw [target_map hs₁ hread] at hrate
    exact .inr ⟨b, ks, w₁, s₁.read b, w', _, k, e, hks, hr.slopes_eq_none hw₁ hrate, hstep, hw₁,
      hrate⟩

theorem stepWith_agrees (hr : RateAgrees inv ids rate slopes) {w : σ} (hw : inv w)
    {s : RungeKutta Float} (hs : s.Fits ids.length) (t h : Float) (y : ByName.Values) :
    match ByName.step slopes t h y with
    | some y' => ∃ w' s', s.stepWith rate w t h (ids.map y) = (w', s', .ok (ids.map y')) ∧
        inv w' ∧ s'.Fits ids.length
    | none => ∃ w' s' e, s.stepWith rate w t h (ids.map y) = (w', s', .error e) := by
  rcases stepWith_by_name hr hw hs t h y with
    ⟨y', w', s', hslopes, hstep, hw', hs'⟩ | ⟨b, ks, _, _, w', s', _, e, hks, hnone, hstep, -⟩
  · rw [hslopes]
    exact ⟨w', s', hstep, hw', hs'⟩
  · rw [hks.step_eq_none rfl hnone]
    exact ⟨w', s', e, hstep⟩

end

section

variable {σ' ε' : Type} {R : σ → σ' → Prop} {E : ε → ε' → Prop} {B V : List α → List α → Prop}

/-- The answers of two machines: both give rates, or both fail. -/
inductive Answers (R : σ → σ' → Prop) (E : ε → ε' → Prop) (B V : List α → List α → Prop) :
    σ × List α × Option ε → σ' × List α × Option ε' → Prop
  | ok {w : σ} {w' : σ'} {k k' : List α} (hw : R w w') (hk : V k k') :
    Answers R E B V (w, k, none) (w', k', none)
  | error {w : σ} {w' : σ'} {k k' : List α} {e : ε} {e' : ε'} (hw : R w w') (hk : B k k')
    (he : E e e') : Answers R E B V (w, k, some e) (w', k', some e')

structure Related (B : List α → List α → Prop) (s s' : RungeKutta α) : Prop where
  k1 : B s.k1 s'.k1
  k2 : B s.k2 s'.k2
  k3 : B s.k3 s'.k3
  k4 : B s.k4 s'.k4
  probe : B s.probe s'.probe

theorem Related.read {s s' : RungeKutta α} (hs : s.Related B s') (b : Buffer) :
    B (s.read b) (s'.read b) := by
  cases b with
  | k1 => exact hs.k1
  | k2 => exact hs.k2
  | k3 => exact hs.k3
  | k4 => exact hs.k4

theorem Related.write {s s' : RungeKutta α} (hs : s.Related B s') {k k' : List α} (hk : B k k')
    (b : Buffer) : (s.write k b).Related B (s'.write k' b) := by
  cases b with
  | k1 => exact { hs with k1 := hk }
  | k2 => exact { hs with k2 := hk }
  | k3 => exact { hs with k3 := hk }
  | k4 => exact { hs with k4 := hk }

inductive Steps (R : σ → σ' → Prop) (E : ε → ε' → Prop) (B V : List α → List α → Prop) :
    σ × RungeKutta α × Except ε (List α) → σ' × RungeKutta α × Except ε' (List α) → Prop
  | ok {w : σ} {w' : σ'} {s s' : RungeKutta α} {y y' : List α} (hw : R w w') (hs : s.Related B s')
    (hy : V y y') : Steps R E B V (w, s, .ok y) (w', s', .ok y')
  | error {w : σ} {w' : σ'} {s s' : RungeKutta α} {e : ε} {e' : ε'} (hw : R w w')
    (hs : s.Related B s') (he : E e e') : Steps R E B V (w, s, .error e) (w', s', .error e')

variable [Add α] [Mul α] [Div α] [OfScientific α]

/-- Machines that give related answers, `V` being kept by all that a step does with vectors. -/
structure Simulates (R : σ → σ' → Prop) (E : ε → ε' → Prop) (B V : List α → List α → Prop)
    (rate : MachineRate σ α ε) (rate' : MachineRate σ' α ε') : Prop where
  answers : ∀ {w w' y y' b b'} (t : α), R w w' → V y y' → B b b' →
    Answers R E B V (rate w t y b) (rate' w' t y' b')
  buffer : ∀ {k k'}, V k k' → B k k'
  offset : ∀ {b b' y y' k k'} (scale : α), B b b' → V y y' → V k k' →
    V (offset scale b y k) (offset scale b' y' k')
  combine : ∀ {y y' a a' b b' c c' d d'} (h : α), V y y' → V a a' → V b b' → V c c' → V d d' →
    V (combine h y a b c d) (combine h y' a' b' c' d')

variable {rate : MachineRate σ α ε} {rate' : MachineRate σ' α ε'} {w : σ} {w' : σ'}
  {s s' : RungeKutta α} {y y' : List α}

section

variable (hr : Simulates R E B V rate rate') (hs : s.Related B s') (h : α) (hy : V y y')
  {b : Buffer} (hread : ∀ b', b'.rank < b.rank → V (s.read b') (s'.read b'))

include hr hs hy hread

theorem Simulates.target : V (s.target h y b) (s'.target h y' b) := by
  cases hsource : b.source? with
  | none => rwa [target_of_none hsource, target_of_none hsource]
  | some b' =>
    rw [target_of_some hsource, target_of_some hsource]
    exact hr.offset _ hs.probe hy (hread b' (Buffer.rank_source hsource))

theorem Simulates.aim : (s.aim h y b).Related B (s'.aim h y' b) := by
  cases hsource : b.source? with
  | none => rwa [aim_of_none hsource, aim_of_none hsource]
  | some b' =>
    rw [aim_of_some hsource, aim_of_some hsource]
    have hprobe := hr.offset (b.reach h) hs.probe hy (hread b' (Buffer.rank_source hsource))
    exact { hs with probe := hr.buffer hprobe }

end

theorem Simulates.reached (hr : Simulates R E B V rate rate') (hw : R w w') (hs : s.Related B s')
    (t h : α) (hy : V y y') {i : Nat} {w₁ : σ} {s₁ : RungeKutta α}
    (hreached : Reached rate t h y w s i w₁ s₁) :
    ∃ w₁' s₁', Reached rate' t h y' w' s' i w₁' s₁' ∧ R w₁ w₁' ∧ s₁.Related B s₁' ∧
      ∀ b, b.rank < i → V (s₁.read b) (s₁'.read b) := by
  induction hreached with
  | start => exact ⟨w', s', .start, hw, hs, fun b hb ↦ absurd hb b.rank.not_lt_zero⟩
  | @next b w₁ w₂ s₁ k _ hrate ih =>
    obtain ⟨w₁', s₁', hreached', hw₁, hs₁, hread⟩ := ih
    have hanswers := hr.answers (b.time t h) hw₁ (hr.target hs₁ h hy hread) (hs₁.read b)
    rw [hrate] at hanswers
    generalize hrate' : rate' w₁' (b.time t h) (s₁'.target h y' b) (s₁'.read b) = x at hanswers
    cases hanswers with
    | @ok _ w₂' _ k' hw₂ hk =>
      refine ⟨w₂', _, .next hreached' hrate', hw₂,
        (hr.aim hs₁ h hy hread).write (hr.buffer hk) b, ?_⟩
      intro b' hb'
      rw [read_write, read_write]
      rcases Buffer.lt_succ_rank hb' with rfl | hlt
      · rwa [if_pos rfl, if_pos rfl]
      · have hne := Buffer.ne_of_rank_lt hlt
        rw [if_neg hne, if_neg hne, read_aim, read_aim]
        exact hread b' hlt

/-- Where machines give related answers, integrators take related steps. -/
theorem Simulates.steps (hr : Simulates R E B V rate rate') (hw : R w w') (hs : s.Related B s')
    (t h : α) (hy : V y y') :
    Steps R E B V (s.stepWith rate w t h y) (s'.stepWith rate' w' t h y') := by
  rcases stepWith_cases rate t h y w s with
    ⟨w₁, s₁, hstep, hreached⟩ | ⟨b, w₁, s₁, w₂, k, e, hstep, hreached, hrate⟩
  · obtain ⟨w₁', s₁', hreached', hw₁, hs₁, hread⟩ := hr.reached hw hs t h hy hreached
    have hk (b : Buffer) := hread b b.rank_lt
    rw [hstep, hreached'.stepWith_ok]
    exact .ok hw₁ hs₁ (hr.combine h hy (hk .k1) (hk .k2) (hk .k3) (hk .k4))
  · obtain ⟨w₁', s₁', hreached', hw₁, hs₁, hread⟩ := hr.reached hw hs t h hy hreached
    have hanswers := hr.answers (b.time t h) hw₁ (hr.target hs₁ h hy hread) (hs₁.read b)
    rw [hrate] at hanswers
    generalize hrate' : rate' w₁' (b.time t h) (s₁'.target h y' b) (s₁'.read b) = x at hanswers
    cases hanswers with
    | error hw₂ hk he =>
      rw [hstep, hreached'.stepWith_error hrate']
      exact .error hw₂ ((hr.aim hs₁ h hy hread).write hk b) he

theorem stepWith_same {rate' : MachineRate σ' α ε}
    (hrate : ∀ w w' t y buffer, R w w' → ∃ v v' k e,
      rate w t y buffer = (v, k, e) ∧ rate' w' t y buffer = (v', k, e) ∧ R v v')
    (hw : R w w') (s : RungeKutta α) (t h : α) (y : List α) :
    ∃ v v' s' next, s.stepWith rate w t h y = (v, s', next) ∧
      s.stepWith rate' w' t h y = (v', s', next) ∧ R v v' := by
  have hr : Simulates R (· = ·) (· = ·) (· = ·) rate rate' := by
    refine ⟨?_, id, ?_, ?_⟩
    · rintro w w' y - b - t hw rfl rfl
      obtain ⟨v, v', k, e, hv, hv', hR⟩ := hrate w w' t y b hw
      rw [hv, hv']
      cases e with
      | none => exact .ok hR rfl
      | some e => exact .error hR rfl rfl
    · rintro b - y - k - scale rfl rfl rfl
      rfl
    · rintro y - a - b - c - d - h rfl rfl rfl rfl rfl
      rfl
  have hsteps := hr.steps hw (s := s) ⟨rfl, rfl, rfl, rfl, rfl⟩ t h (rfl : y = y)
  generalize s.stepWith rate w t h y = x at hsteps ⊢
  generalize s.stepWith rate' w' t h y = x' at hsteps ⊢
  have hsame : ∀ {s s' : RungeKutta α}, s.Related (· = ·) s' → s = s' := by
    rintro ⟨⟩ ⟨⟩ ⟨rfl, rfl, rfl, rfl, rfl⟩
    rfl
  cases hsteps with
  | ok hw hs hy =>
    obtain rfl := hsame hs
    obtain rfl := hy
    exact ⟨_, _, _, _, rfl, rfl, hw⟩
  | error hw hs he =>
    obtain rfl := hsame hs
    obtain rfl := he
    exact ⟨_, _, _, _, rfl, rfl, hw⟩

end

end RungeKutta

theorem map_filterMap_zipIdx {α β : Type} (as : List α) (k : Nat) (p : α → Bool) {g : Nat → β}
    {h : α → β} (hg : ∀ i a, as[i]? = some a → g (k + i) = h a) :
    ((as.zipIdx k).filterMap fun (a, i) ↦ if p a then some i else none).map g =
      (as.filter p).map h := by
  induction as generalizing k with
  | nil => rfl
  | cons a as ih =>
    have ha := hg 0 a rfl
    have has := ih (k + 1) fun i b hb ↦ by
      rw [Nat.add_assoc, Nat.add_comm 1]
      exact hg (i + 1) b hb
    cases hp : p a with
    | false =>
      simpa only [List.zipIdx_cons, List.filterMap_cons, List.filter_cons, hp, Bool.false_eq_true,
        if_false] using has
    | true =>
      simp only [List.zipIdx_cons, List.filterMap_cons, List.filter_cons, hp, if_true,
        List.map_cons, has, ← ha, Nat.add_zero]

theorem length_wiring (d : Document) (side : Flow → Option String) :
    (wiring d side).length = d.stocks.length := by
  rw [wiring, List.length_map, List.length_zipIdx]

theorem Program.length_rates {α : Type} [Add α] [Sub α] [Neg α] [OfScientific α] {p : Program}
    {count : Nat} (hin : p.inflows.length = count) (hout : p.outflows.length = count)
    (flow : Nat → α) : (p.rates flow).length = count := by
  rw [rates, List.length_zipWith, hin, hout, Nat.min_self]

/-- Where the ids of the stocks differ, each has the flows with an end at it. -/
theorem wiring_eq {d : Document} (h : (d.stocks.map (·.id)).Nodup) (side : Flow → Option String) :
    wiring d side = d.stocks.map fun s ↦
      d.flows.zipIdx.filterMap fun (f, j) ↦ if side f == some s.id then some j else none := by
  refine List.ext_getElem? ?_
  intro i
  simp only [wiring, List.getElem?_map, List.getElem?_zipIdx, Option.map_map, Nat.zero_add]
  cases hs : d.stocks[i]? with
  | none => rfl
  | some s =>
    have hany : (d.stocks.drop (i + 1)).any (·.id == s.id) = false := by
      obtain ⟨hi, rfl⟩ := List.getElem?_eq_some_iff.mp hs
      rw [List.any_eq_false]
      intro u hu he
      have hdrop := h.sublist ((List.drop_sublist i d.stocks).map (·.id))
      rw [← List.getElem_cons_drop hi, List.map_cons, List.nodup_cons] at hdrop
      exact hdrop.1 (List.mem_map.mpr ⟨u, hu, by simpa using he⟩)
    simp only [Option.map_some, Function.comp_apply, hany, Bool.false_eq_true, if_false]

end SystemDynamics
