import SystemDynamics.Proofs.Simulation.Agreement
import SystemDynamics.Proofs.Validation.Rules

namespace SystemDynamics

/-- The declarations that a change of one can change: the least set with itself, with what reads a
member in its equation, and with the stocks that a member fills or drains. -/
inductive Document.Influences (d : Document) (changed : String) : String → Prop
  | self : Influences d changed changed
  | reads {reader read : String} : Influences d changed read → d.Reads reader read →
      Influences d changed reader
  | moves {f : Flow} {stock : String} : f ∈ d.flows → Influences d changed f.id →
      f.source = some stock ∨ f.target = some stock → Influences d changed stock

theorem Document.mem_ids_of_mem_equations {d : Document} {e : String × String}
    (he : e ∈ d.equations) : e.1 ∈ d.ids := by
  obtain ⟨c, hc, hce⟩ := mem_equations_iff.mp he
  obtain ⟨n, v, hv, hvc⟩ := exists_node hc
  rw [equation?_id hv hvc hce]
  exact mem_nodes_ids.mp (List.mem_map_of_mem (List.mem_of_getElem? hv))

theorem Document.Acceptable.mem_ids_of_influences {w : World} {d : Document}
    (h : d.Acceptable w) {p : Parameter} (hp : p ∈ d.parameters) {id : String}
    (hid : d.Influences p.id id) : id ∈ d.ids := by
  induction hid with
  | self =>
    have hmem : p.id ∈ d.idsOf .parameter := List.mem_map_of_mem hp
    exact mem_ids_of_idsOf hmem
  | reads _ hreads =>
    obtain ⟨equation, -, he, -⟩ := hreads
    exact mem_ids_of_mem_equations he
  | @moves f stock hf _ hend =>
    have hmem : stock ∈ d.idsOf .stock := (h.flows f hf).declared stock hend
    exact mem_ids_of_idsOf hmem

namespace ByName

variable {d : Document} {changed : String}

def SameBeyond (d : Document) (changed : String) (y y' : Values) : Prop :=
  ∀ id, ¬ d.Influences changed id → y' id = y id

theorem SameBeyond.slope {c c' : Values} (hc : SameBeyond d changed c c') :
    SameBeyond d changed (slope d c) (slope d c') := by
  intro stock h
  have hends : ∀ side : Flow → Option String,
      (∀ f, side f = some stock → f.source = some stock ∨ f.target = some stock) →
      ((d.flows.filter (side · == some stock)).map fun f ↦ c' f.id) =
        (d.flows.filter (side · == some stock)).map fun f ↦ c f.id := by
    intro side hside
    refine List.map_congr_left fun f hf ↦ hc f.id fun hf' ↦ h ?_
    obtain ⟨hmem, hend⟩ := List.mem_filter.mp hf
    exact .moves hmem hf' (hside f (by simpa using hend))
  rw [ByName.slope, ByName.slope, hends (·.target) fun _ ↦ .inr, hends (·.source) fun _ ↦ .inl]

theorem SameBeyond.step {slopes slopes' : Float → Values → Option Values}
    (hslopes : ∀ time y y' k k', SameBeyond d changed y y' → slopes time y = some k →
      slopes' time y' = some k' → SameBeyond d changed k k')
    {time h : Float} {y y' z z' : Values} (hy : SameBeyond d changed y y')
    (hz : step slopes time h y = some z) (hz' : step slopes' time h y' = some z') :
    SameBeyond d changed z z' := by
  obtain ⟨k1, h1, hz⟩ := Option.bind_eq_some_iff.mp hz
  obtain ⟨k2, h2, hz⟩ := Option.bind_eq_some_iff.mp hz
  obtain ⟨k3, h3, hz⟩ := Option.bind_eq_some_iff.mp hz
  obtain ⟨k4, h4, hz⟩ := Option.bind_eq_some_iff.mp hz
  obtain rfl := Option.some.inj hz
  obtain ⟨k1', h1', hz'⟩ := Option.bind_eq_some_iff.mp hz'
  obtain ⟨k2', h2', hz'⟩ := Option.bind_eq_some_iff.mp hz'
  obtain ⟨k3', h3', hz'⟩ := Option.bind_eq_some_iff.mp hz'
  obtain ⟨k4', h4', hz'⟩ := Option.bind_eq_some_iff.mp hz'
  obtain rfl := Option.some.inj hz'
  have hprobe : ∀ scale {k k' : Values}, SameBeyond d changed k k' →
      SameBeyond d changed (fun s ↦ y s + scale * k s) fun s ↦ y' s + scale * k' s := by
    intro scale k k' hk id hid
    dsimp only
    rw [hy id hid, hk id hid]
  have hk1 := hslopes _ _ _ _ _ hy h1 h1'
  have hk2 := hslopes _ _ _ _ _ (hprobe _ hk1) h2 h2'
  have hk3 := hslopes _ _ _ _ _ (hprobe _ hk2) h3 h3'
  have hk4 := hslopes _ _ _ _ _ (hprobe _ hk3) h4 h4'
  intro id hid
  dsimp only
  rw [hy id hid, hk1 id hid, hk2 id hid, hk3 id hid, hk4 id hid]

structure Moment.SameBeyond (d : Document) (changed : String) (o o' : Moment) : Prop where
  stocks : ByName.SameBeyond d changed o.stocks o'.stocks
  computed : ByName.SameBeyond d changed o.computed o'.computed

section

variable {o o' : NameMap Float} (hsame : ∀ id, id ≠ changed → o'.find? id = o.find? id)

include hsame

theorem given?_same {time : Float} {y y' : Values} (hy : SameBeyond d changed y y') {id : String}
    (h : ¬ d.Influences changed id) : given? d o' time y' id = given? d o time y id := by
  have hne : id ≠ changed := by
    intro he
    exact h (he ▸ .self)
  rw [given?, given?, parameter?, parameter?, hsame id hne]
  cases hs : d.stock? id with
  | none => rfl
  | some s =>
    have hid : s.id = id := by simpa using List.find?_some hs
    simp only [Option.map_some, hid, hy id h]

variable (hdeclared : ∀ id, d.Influences changed id → id ∈ d.ids)

include hdeclared

theorem computed?_same {time : Float} {y y' : Values} (hy : SameBeyond d changed y y')
    (depth : Nat) {name : String} (h : ¬ d.Influences changed name) :
    computed? d (given? d o' time y') depth name = computed? d (given? d o time y) depth name := by
  induction depth generalizing name with
  | zero => rfl
  | succ depth ih =>
    rw [computed?, computed?]
    refine Option.bind_congr fun equation hequation ↦ ?_
    have he : (name, equation) ∈ d.equations := by
      obtain ⟨before, after, hentries, -⟩ := List.lookup_eq_some_iff.mp hequation
      simp [hentries]
    refine congrArg Except.toOption (Equation.evaluate_congr fun t ht v hv ↦ ?_)
    have hv : ¬ d.Influences changed v := fun hinfluences ↦
      h (.reads hinfluences ⟨equation, t, he, ht, hv, hdeclared v hinfluences⟩)
    rw [given?_same hsame hy hv, ih hv]

theorem computedAt_same {time : Float} {y y' c c' : Values} (hy : SameBeyond d changed y y')
    (hc : computedAt d o time y = some c) (hc' : computedAt d o' time y' = some c') :
    SameBeyond d changed c c' := by
  rw [computedAt, settle_eq_some] at hc hc'
  intro id hid
  by_cases hmem : id ∈ d.equations.map (·.1)
  · obtain ⟨e, he, rfl⟩ := List.mem_map.mp hmem
    have hvalue := hc'.1 e he
    rw [computed?_same hsame hdeclared hy _ hid, hc.1 e he] at hvalue
    exact (Option.some.inj hvalue).symm
  · rw [hc.2 id hmem, hc'.2 id hmem]

theorem advance_same {time h : Float} {y y' z z' : Values} (hy : SameBeyond d changed y y')
    (hz : advance d o time h y = some z) (hz' : advance d o' time h y' = some z') :
    SameBeyond d changed z z' := by
  refine SameBeyond.step ?_ hy hz hz'
  intro time y y' k k' hy hk hk'
  obtain ⟨c, hc, rfl⟩ := Option.map_eq_some_iff.mp hk
  obtain ⟨c', hc', rfl⟩ := Option.map_eq_some_iff.mp hk'
  exact (computedAt_same hsame hdeclared hy hc hc').slope

theorem runFrom_same {grid : List Float} {y y' : Values} {moments moments' : List Moment}
    (hy : SameBeyond d changed y y') (h : runFrom d o grid y = some moments)
    (h' : runFrom d o' grid y' = some moments') :
    List.Forall₂ (Moment.SameBeyond d changed) moments moments' := by
  induction grid generalizing y y' moments moments' with
  | nil =>
    obtain rfl := Option.some.inj h
    obtain rfl := Option.some.inj h'
    exact .nil
  | cons t grid ih =>
    obtain ⟨c, later, hc, rfl, hlater⟩ := runFrom_cons_eq_some.mp h
    obtain ⟨c', later', hc', rfl, hlater'⟩ := runFrom_cons_eq_some.mp h'
    refine .cons ⟨hy, computedAt_same hsame hdeclared hy hc hc'⟩ ?_
    cases grid with
    | nil =>
      obtain rfl := hlater
      obtain rfl := hlater'
      exact .nil
    | cons next grid =>
      obtain ⟨z, hz, hlater⟩ := hlater
      obtain ⟨z', hz', hlater'⟩ := hlater'
      exact ih (advance_same hsame hdeclared hy hz hz') hlater hlater'

end

end ByName

/-- Two trajectories with the same series wherever a declaration has no influence. -/
structure Trajectory.SameBeyond (d : Document) (changed : String) (r r' : Trajectory) : Prop where
  stocks : ∀ s ∈ d.stocks, ¬ d.Influences changed s.id →
    r'.stocks.find? s.id = r.stocks.find? s.id
  flows : ∀ f ∈ d.flows, ¬ d.Influences changed f.id → r'.flows.find? f.id = r.flows.find? f.id
  auxiliaries : ∀ a ∈ d.auxiliaries, ¬ d.Influences changed a.id →
    r'.auxiliaries.find? a.id = r.auxiliaries.find? a.id

theorem Trajectory.Shows.sameBeyond {d : Document} {changed : String} {horizon : Horizon}
    {o o' : NameMap Float} {moments moments' : List ByName.Moment} {r r' : Trajectory}
    (h : r.Shows d o horizon moments) (h' : r'.Shows d o' horizon moments')
    (hsame : List.Forall₂ (ByName.Moment.SameBeyond d changed) moments moments') :
    r.SameBeyond d changed r' := by
  have hmap : ∀ value : ByName.Moment → Float,
      (∀ o o' : ByName.Moment, o.SameBeyond d changed o' → value o' = value o) →
        moments'.map value = moments.map value := by
    intro value hvalue
    have hall := hsame.flip.imp fun o' o ho ↦ hvalue o o' ho
    rwa [← List.forall₂_map_right_iff, ← List.forall₂_map_left_iff, List.forall₂_eq_eq_eq] at hall
  constructor
  · intro s hs hs'
    rw [h.stocks s hs, h'.stocks s hs, hmap _ fun o o' ho ↦ ho.stocks s.id hs']
  · intro f hf hf'
    rw [h.flows f hf, h'.flows f hf, hmap _ fun o o' ho ↦ ho.computed f.id hf']
  · intro a ha ha'
    rw [h.auxiliaries a ha, h'.auxiliaries a ha, hmap _ fun o o' ho ↦ ho.computed a.id ha']

end SystemDynamics
