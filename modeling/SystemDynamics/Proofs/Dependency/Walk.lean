import SystemDynamics.Dependency.Walk
import Mathlib.Data.List.Perm.Subperm
import Mathlib.Data.Finset.Card
import Mathlib.Data.Finset.Range
import Mathlib.Logic.Relation

namespace SystemDynamics.Dependency

open Relation (ReflTransGen TransGen)

variable (reads : Nat → List Nat) (count : Nat)

def Leads (n m : Nat) : Prop := m ∈ reads n

def Bounded : Prop := ∀ n m, m ∈ reads n → n < count ∧ m < count

def Acyclic : Prop := ∀ n, ¬ TransGen (Leads reads) n n

/-- What each node of a list reads comes later in the list, or leads back to the node. -/
def Follows : List Nat → Prop
  | [] => True
  | n :: done => (∀ m ∈ reads n, m ∈ done ∨ ReflTransGen (Leads reads) m n) ∧ Follows done

/-- A walk in progress: `path` holds the nodes that were entered and not left. -/
structure Sound (path : List Nat) (w : Walk) : Prop where
  lt : ∀ n ∈ w.seen, n < count
  seen_nodup : w.seen.Nodup
  done_nodup : w.done.Nodup
  mem_seen : ∀ n, n ∈ w.seen ↔ n ∈ w.done ∨ n ∈ path
  apart : ∀ n ∈ w.done, n ∉ path
  closed : ∀ n ∈ w.done, ∀ m ∈ reads n, m ∈ w.seen
  follows : Follows reads w.done

structure Gains (path targets : List Nat) (w w' : Walk) : Prop where
  sound : Sound reads count path w'
  kept : w.seen ⊆ w'.seen
  found : targets ⊆ w'.seen
  reached : ∀ m ∈ w'.seen, m ∈ w.seen ∨ ∃ n ∈ targets, ReflTransGen (Leads reads) n m

variable {reads count}

theorem Gains.length_le {path targets : List Nat} {w w' : Walk} (hw : w.seen.Nodup)
    (h : Gains reads count path targets w w') : w.seen.length ≤ w'.seen.length :=
  (hw.subperm h.kept).length_le

theorem Gains.refl {path targets : List Nat} {w : Walk} (h : Sound reads count path w)
    (ht : targets ⊆ w.seen) : Gains reads count path targets w w :=
  ⟨h, fun _ hm ↦ hm, ht, fun _ hm ↦ .inl hm⟩

theorem Gains.trans {path ns ms : List Nat} {w w' w'' : Walk}
    (h : Gains reads count path ns w w') (h' : Gains reads count path ms w' w'') :
    Gains reads count path (ns ++ ms) w w'' where
  sound := h'.sound
  kept _ hm := h'.kept (h.kept hm)
  found := by
    intro m hm
    rcases List.mem_append.mp hm with hm | hm
    · exact h'.kept (h.found hm)
    · exact h'.found hm
  reached := by
    intro m hm
    rcases h'.reached m hm with hm | ⟨n, hn, hr⟩
    · rcases h.reached m hm with hm | ⟨n, hn, hr⟩
      · exact .inl hm
      · exact .inr ⟨n, List.mem_append_left _ hn, hr⟩
    · exact .inr ⟨n, List.mem_append_right _ hn, hr⟩

theorem Sound.enter {path : List Nat} {w : Walk} {n : Nat} (h : Sound reads count path w)
    (hn : n < count) (hs : n ∉ w.seen) :
    Sound reads count (n :: path) { w with seen := n :: w.seen } where
  lt := by simpa [hn] using h.lt
  seen_nodup := List.nodup_cons.mpr ⟨hs, h.seen_nodup⟩
  done_nodup := h.done_nodup
  mem_seen m := by
    have hm := h.mem_seen m
    simp only [List.mem_cons]
    tauto
  apart m hm := by
    have hseen : m ∈ w.seen := (h.mem_seen m).mpr (.inl hm)
    have hne : m ≠ n := fun he ↦ hs (he ▸ hseen)
    simpa [hne] using h.apart m hm
  closed m hm k hk := List.mem_cons_of_mem _ (h.closed m hm k hk)
  follows := h.follows

/-- Leaving a node when everything it reads was seen. What it reads and is not done lies on the
path, so it leads back. -/
theorem Sound.leave {path : List Nat} {w : Walk} {n : Nat} (h : Sound reads count (n :: path) w)
    (hn : n ∉ path) (hr : reads n ⊆ w.seen)
    (hpath : ∀ m ∈ n :: path, ReflTransGen (Leads reads) m n) :
    Sound reads count path { w with done := n :: w.done } where
  lt := h.lt
  seen_nodup := h.seen_nodup
  done_nodup := List.nodup_cons.mpr ⟨fun hd ↦ h.apart n hd List.mem_cons_self, h.done_nodup⟩
  mem_seen m := by
    have hm := h.mem_seen m
    simp only [List.mem_cons] at hm ⊢
    tauto
  apart m hm := by
    rcases List.mem_cons.mp hm with rfl | hm
    · exact hn
    · intro hp
      exact h.apart m hm (List.mem_cons_of_mem _ hp)
  closed m hm := by
    rcases List.mem_cons.mp hm with rfl | hm
    · exact hr
    · exact h.closed m hm
  follows := by
    refine ⟨?_, h.follows⟩
    intro m hm
    rcases (h.mem_seen m).mp (hr hm) with hd | hp
    · exact .inl hd
    · exact .inr (hpath m hp)

theorem mem_of_count_le {seen : List Nat} (hlt : ∀ n ∈ seen, n < count) (hd : seen.Nodup)
    (hc : count ≤ seen.length) {n : Nat} (hn : n < count) : n ∈ seen := by
  have hsub : seen.toFinset ⊆ Finset.range count := by
    intro m hm
    exact Finset.mem_range.mpr (hlt m (List.mem_toFinset.mp hm))
  have hcard : (Finset.range count).card ≤ seen.toFinset.card := by
    rwa [Finset.card_range, List.toFinset_card_of_nodup hd]
  have heq := Finset.eq_of_subset_of_card_le hsub hcard
  exact List.mem_toFinset.mp (heq ▸ Finset.mem_range.mpr hn)

theorem foldl_gains (go : Nat → Walk → Walk) {path : List Nat} (depth : Nat) (ms : List Nat)
    (hgo : ∀ m ∈ ms, ∀ w, Sound reads count path w → count ≤ depth + w.seen.length →
      Gains reads count path [m] w (go m w))
    (w : Walk) (hw : Sound reads count path w) (hd : count ≤ depth + w.seen.length) :
    Gains reads count path ms w (ms.foldl (fun w m ↦ go m w) w) := by
  induction ms generalizing w with
  | nil => exact .refl hw (List.nil_subset _)
  | cons m ms ih =>
    have h := hgo m List.mem_cons_self w hw hd
    have hl := h.length_le hw.seen_nodup
    exact h.trans (ih (fun k hk ↦ hgo k (List.mem_cons_of_mem _ hk)) _ h.sound (by omega))

/-- One visit. The depth left makes up for the nodes not yet seen, so it never runs out before
they do. -/
theorem visit_gains (hb : Bounded reads count) (depth n : Nat) (path : List Nat) (w : Walk)
    (hn : n < count) (hw : Sound reads count path w) (hd : count ≤ depth + w.seen.length)
    (hpath : ∀ m ∈ path, ReflTransGen (Leads reads) m n) :
    Gains reads count path [n] w (visit reads depth n w) := by
  induction depth generalizing n path w with
  | zero =>
    have hmem : n ∈ w.seen := mem_of_count_le hw.lt hw.seen_nodup (by omega) hn
    exact .refl hw (by simpa using hmem)
  | succ depth ih =>
    simp only [visit, List.contains_iff_mem]
    split
    case isTrue hs => exact .refl hw (by simpa using hs)
    case isFalse hs =>
      have henter := hw.enter hn hs
      have hnp : n ∉ path := fun hp ↦ hs ((hw.mem_seen n).mpr (.inr hp))
      have hback : ∀ m ∈ n :: path, ReflTransGen (Leads reads) m n := by
        intro m hm
        rcases List.mem_cons.mp hm with rfl | hm
        · exact .refl
        · exact hpath m hm
      have hreads := foldl_gains (visit reads depth) depth (reads n)
        (fun m hm w hw hd ↦ ih m (n :: path) w (hb n m hm).2 hw hd
          fun k hk ↦ (hback k hk).tail hm) _ henter (by simp only [List.length_cons]; omega)
      refine ⟨hreads.sound.leave hnp hreads.found hback, ?_, ?_, ?_⟩
      · intro m hm
        exact hreads.kept (List.mem_cons_of_mem _ hm)
      · simpa using hreads.kept List.mem_cons_self
      · intro m hm
        rcases hreads.reached m hm with hm | ⟨k, hk, hr⟩
        · rcases List.mem_cons.mp hm with rfl | hm
          · exact .inr ⟨m, List.mem_singleton_self m, .refl⟩
          · exact .inl hm
        · exact .inr ⟨n, List.mem_singleton_self n, .head hk hr⟩

theorem sound_empty : Sound reads count [] {} where
  lt := by simp
  seen_nodup := .nil
  done_nodup := .nil
  mem_seen := by simp
  apart := by simp
  closed := by simp
  follows := trivial

theorem mem_reached_iff (hb : Bounded reads count) {n m : Nat} (hn : n < count) :
    m ∈ reached reads count n ↔ ReflTransGen (Leads reads) n m := by
  have h := visit_gains hb count n [] {} hn sound_empty (by simp) (by simp)
  have hdone : ∀ k, k ∈ (visit reads count n {}).seen → k ∈ (visit reads count n {}).done := by
    intro k hk
    simpa using (h.sound.mem_seen k).mp hk
  constructor
  · intro hm
    simpa using h.reached m hm
  · intro hr
    induction hr with
    | refl => exact h.found (List.mem_singleton_self n)
    | tail _ hk ih => exact h.sound.closed _ (hdone _ ih) _ hk

theorem walkAll_gains (hb : Bounded reads count) :
    Gains reads count [] (List.range count) {}
      ((List.range count).foldl (fun w n ↦ visit reads count n w) {}) :=
  foldl_gains (visit reads count) count (List.range count)
    (fun m hm w hw hd ↦ visit_gains hb count m [] w (List.mem_range.mp hm) hw hd (by simp))
    {} sound_empty (by simp)

theorem walkAll_perm (hb : Bounded reads count) :
    (walkAll reads count).Perm (List.range count) := by
  have h := walkAll_gains hb
  refine (List.reverse_perm _).trans ?_
  refine (List.perm_ext_iff_of_nodup h.sound.done_nodup List.nodup_range).mpr ?_
  intro n
  constructor
  · intro hn
    exact List.mem_range.mpr (h.sound.lt n ((h.sound.mem_seen n).mpr (.inl hn)))
  · intro hn
    simpa using (h.sound.mem_seen n).mp (h.found hn)

theorem Follows.mem_of_append {done before : List Nat} {n m : Nat}
    (h : Follows reads (before ++ n :: done)) (ha : Acyclic reads) (hm : m ∈ reads n) :
    m ∈ done := by
  induction before with
  | nil => exact (h.1 m hm).resolve_right fun hr ↦ ha n (.head' hm hr)
  | cons k before ih => exact ih h.2

/-- Where no path leads back to its start, a walk over all nodes is done with what a node reads
before it is done with the node. -/
theorem walkAll_reads_before (hb : Bounded reads count) (ha : Acyclic reads)
    {before after : List Nat} {n : Nat} (h : walkAll reads count = before ++ n :: after) {m : Nat}
    (hm : m ∈ reads n) : m ∈ before := by
  have hdone := congrArg List.reverse h
  simp only [walkAll, List.reverse_reverse, List.reverse_append, List.reverse_cons,
    List.append_assoc, List.singleton_append] at hdone
  have hf := (walkAll_gains hb).sound.follows
  rw [hdone] at hf
  exact List.mem_reverse.mp (hf.mem_of_append ha hm)

theorem table_reached (n : Nat) (hn : n < count) :
    (((List.range count).map (reached reads count)).toArray.getD n []) = reached reads count n := by
  simp [Array.getD, hn]

/-- The nodes that a node leads to and is led to by. -/
def membersOf (reads : Nat → List Nat) (count n : Nat) : List Nat :=
  component (reached reads count) count n

/-- Whether a node is the first of a component in which some path returns to its start. -/
def heads (reads : Nat → List Nat) (count n : Nat) : Bool :=
  (membersOf reads count n).head? == some n &&
    ((membersOf reads count n).length != 1 || (reads n).contains n)

theorem mem_membersOf_iff (hb : Bounded reads count) {n m : Nat} (hn : n < count) :
    m ∈ membersOf reads count n ↔
      m < count ∧ ReflTransGen (Leads reads) n m ∧ ReflTransGen (Leads reads) m n := by
  simp only [membersOf, component, List.mem_filter, List.mem_range, Bool.and_eq_true,
    List.contains_iff_mem]
  refine and_congr_right ?_
  intro hm
  rw [mem_reached_iff hb hn, mem_reached_iff hb hm]

theorem membersOf_eq (hb : Bounded reads count) {n m : Nat} (hn : n < count)
    (hm : m ∈ membersOf reads count n) : membersOf reads count m = membersOf reads count n := by
  obtain ⟨hm, hnm, hmn⟩ := (mem_membersOf_iff hb hn).mp hm
  refine List.filter_congr ?_
  intro k hk
  have hk := List.mem_range.mp hk
  rw [Bool.eq_iff_iff]
  simp only [Bool.and_eq_true, List.contains_iff_mem]
  rw [mem_reached_iff hb hm, mem_reached_iff hb hn, mem_reached_iff hb hk, mem_reached_iff hb hk]
  exact ⟨fun h ↦ ⟨hnm.trans h.1, h.2.trans hmn⟩, fun h ↦ ⟨hmn.trans h.1, h.2.trans hnm⟩⟩

theorem component_table {n : Nat} (hn : n < count) :
    component (fun n ↦ ((List.range count).map (reached reads count)).toArray.getD n []) count n =
      membersOf reads count n := by
  refine List.filter_congr fun m hm ↦ ?_
  dsimp only
  rw [table_reached n hn, table_reached m (List.mem_range.mp hm)]

theorem zipIdx_range (count : Nat) :
    (List.range count).zipIdx = (List.range count).map fun n ↦ (n, n) := by
  refine List.ext_getElem? fun i ↦ ?_
  by_cases hi : i < count <;> simp [hi]

theorem cycles_eq : cycles reads count =
    ((List.range count).filter (heads reads count)).map (membersOf reads count) := by
  rw [← List.filterMap_eq_map, List.filterMap_filter]
  simp only [cycles, List.zipIdx_map, zipIdx_range, List.map_map, List.filterMap_map]
  refine List.filterMap_congr fun n hn ↦ ?_
  simp only [Function.comp_apply, Prod.map, id, component_table (List.mem_range.mp hn)]
  rfl

theorem membersOf_sublist (n : Nat) : (membersOf reads count n).Sublist (List.range count) :=
  List.filter_sublist

theorem self_mem_membersOf (hb : Bounded reads count) {n : Nat} (hn : n < count) :
    n ∈ membersOf reads count n :=
  (mem_membersOf_iff hb hn).mpr ⟨hn, .refl, .refl⟩

theorem mem_cycles_iff {c : List Nat} :
    c ∈ cycles reads count ↔ ∃ n < count, heads reads count n = true ∧
      membersOf reads count n = c := by
  simp only [cycles_eq, List.mem_map, List.mem_filter, List.mem_range, and_assoc]

theorem membersOf_eq_of_mem (hb : Bounded reads count) {c : List Nat}
    (hc : c ∈ cycles reads count) {n : Nat} (hn : n ∈ c) : membersOf reads count n = c := by
  obtain ⟨k, hk, -, rfl⟩ := mem_cycles_iff.mp hc
  exact membersOf_eq hb hk hn

theorem membersOf_mem_cycles_iff (hb : Bounded reads count) {n : Nat} (hn : n < count) :
    membersOf reads count n ∈ cycles reads count ↔
      (∃ m ≠ n, m ∈ membersOf reads count n) ∨ n ∈ reads n := by
  obtain ⟨first, rest, hc⟩ := List.exists_cons_of_ne_nil
    (List.ne_nil_of_mem (self_mem_membersOf hb hn))
  have hfirst : first ∈ membersOf reads count n := hc ▸ List.mem_cons_self
  have hlt := ((mem_membersOf_iff hb hn).mp hfirst).1
  have heq : membersOf reads count first = membersOf reads count n :=
    membersOf_eq hb hn hfirst
  have hself := self_mem_membersOf hb hn
  have hnodup : (membersOf reads count n).Nodup := (membersOf_sublist n).nodup List.nodup_range
  have hhead : heads reads count first = true ↔ rest ≠ [] ∨ first ∈ reads first := by
    simp [heads, heq, hc]
  have hmem : membersOf reads count n ∈ cycles reads count ↔ heads reads count first = true := by
    rw [mem_cycles_iff]
    constructor
    · rintro ⟨k, hk, hheads, hkn⟩
      obtain rfl : first = k := by
        have h := hheads
        rw [heads, Bool.and_eq_true, hkn, hc] at h
        simpa using h.1
      exact hheads
    · exact fun h ↦ ⟨first, hlt, h, heq⟩
  rw [hmem, hhead]
  rw [hc] at hself hnodup ⊢
  cases rest with
  | nil =>
    obtain rfl := List.mem_singleton.mp hself
    simp
  | cons second rest =>
    refine iff_of_true (.inl (List.cons_ne_nil _ _)) (.inl ?_)
    by_cases h : first = n
    · exact ⟨second, fun he ↦ by simp [h, he] at hnodup, by simp⟩
    · exact ⟨first, h, List.mem_cons_self⟩

theorem acyclic_of_cycles_eq_nil (hb : Bounded reads count) (h : cycles reads count = []) :
    Acyclic reads := by
  intro n hloop
  obtain ⟨k, hk, hkn⟩ := Relation.TransGen.head'_iff.mp hloop
  obtain ⟨hn, hk'⟩ := hb n k hk
  -- What leads `n` back to itself is in its component, which is then a cycle.
  have hcycle : membersOf reads count n ∈ cycles reads count := by
    refine (membersOf_mem_cycles_iff hb hn).mpr ?_
    by_cases hne : k = n
    · exact .inr (hne ▸ hk)
    · exact .inl ⟨k, hne, (mem_membersOf_iff hb hn).mpr ⟨hk', .single hk, hkn⟩⟩
  rw [h] at hcycle
  exact List.not_mem_nil hcycle

theorem cycles_eq_nil_of_acyclic (hb : Bounded reads count) (ha : Acyclic reads) :
    cycles reads count = [] := by
  refine List.eq_nil_iff_forall_not_mem.mpr fun c hc ↦ ?_
  obtain ⟨n, hn, -, rfl⟩ := mem_cycles_iff.mp hc
  rcases (membersOf_mem_cycles_iff hb hn).mp hc with ⟨m, hne, hm⟩ | hself
  · obtain ⟨-, hnm, hmn⟩ := (mem_membersOf_iff hb hn).mp hm
    have hnm' := (Relation.reflTransGen_iff_eq_or_transGen.mp hnm).resolve_left hne
    exact ha n (hnm'.trans_left hmn)
  · exact ha n (.single hself)

end SystemDynamics.Dependency
