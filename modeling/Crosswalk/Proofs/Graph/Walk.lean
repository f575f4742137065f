import Crosswalk.Proofs.Graph.Reachability
import Mathlib.Data.List.Chain

/-!
# Shortest walks

What the search in rounds returns for a vertex is a walk along arrows, and no walk from the start to
that vertex has fewer steps. The round in which a vertex is met first is its distance: the ends of
the paths of a round are the vertices at that distance, and what has been seen is as near or nearer.
How long a shortest walk is depends on the arrows alone, not on their order nor on what the vertices
are called.
-/

namespace Crosswalk.Graph

variable {α : Type} {arrows : List (α × α)} {step : α → α → Prop} {a b c : α} {n : Nat}

/-- A walk from one vertex to another, both included, that takes one step after the other. -/
structure IsWalk (step : α → α → Prop) (a b : α) (walk : List α) : Prop where
  head : walk.head? = some a
  last : walk.getLast? = some b
  chain : walk.IsChain step

theorem IsWalk.single (step : α → α → Prop) (a : α) : IsWalk step a a [a] :=
  ⟨rfl, rfl, .singleton a⟩

theorem IsWalk.concat {walk : List α} (h : IsWalk step a b walk) (hbc : step b c) :
    IsWalk step a c (walk ++ [c]) where
  head := by
    rw [List.head?_append, h.head]
    rfl
  last := List.getLast?_concat
  chain := by
    rw [List.isChain_append]
    refine ⟨h.chain, .singleton c, fun x hx y hy => ?_⟩
    rw [h.last] at hx
    obtain rfl := Option.some.inj hx
    obtain rfl := Option.some.inj hy
    exact hbc

/-! ### Distances -/

/-- A number of arrows, one after the other, leads from one vertex to another. -/
def Steps (arrows : List (α × α)) (a : α) : Nat → α → Prop
  | 0, b => a = b
  | n + 1, b => ∃ c, Steps arrows a n c ∧ Arrow arrows c b

/-- A number of arrows leads from one vertex to another, and no smaller number does. -/
structure Distance (arrows : List (α × α)) (a : α) (n : Nat) (b : α) : Prop where
  steps : Steps arrows a n b
  least : ∀ m < n, ¬ Steps arrows a m b

theorem Distance.unique {m : Nat} (h : Distance arrows a m b) (h' : Distance arrows a n b) :
    m = n := by
  have hmn : ¬ m < n := fun hlt => h'.least m hlt h.steps
  have hnm : ¬ n < m := fun hlt => h.least n hlt h'.steps
  omega

theorem Steps.reflTransGen (h : Steps arrows a n b) :
    Relation.ReflTransGen (Arrow arrows) a b := by
  induction n generalizing b with
  | zero =>
    obtain rfl : a = b := h
    exact .refl
  | succ n ih =>
    obtain ⟨c, hc, hcb⟩ := h
    exact (ih hc).tail hcb

theorem exists_steps (h : Relation.ReflTransGen (Arrow arrows) a b) : ∃ n, Steps arrows a n b := by
  induction h with
  | refl => exact ⟨0, rfl⟩
  | tail _ hcd ih =>
    obtain ⟨n, hn⟩ := ih
    exact ⟨n + 1, _, hn, hcd⟩

/-- Where some number of arrows leads, a smallest number does. -/
theorem Steps.exists_distance (h : Steps arrows a n b) : ∃ m ≤ n, Distance arrows a m b := by
  induction n using Nat.strong_induction_on with
  | _ n ih =>
    by_cases hless : ∃ m < n, Steps arrows a m b
    · obtain ⟨m, hm, hsteps⟩ := hless
      obtain ⟨k, hk, hdist⟩ := ih m hm hsteps
      exact ⟨k, hk.trans hm.le, hdist⟩
    · exact ⟨n, Nat.le_refl n, h, fun m hm hs => hless ⟨m, hm, hs⟩⟩

theorem Steps.head (hab : Arrow arrows a b) (h : Steps arrows b n c) :
    Steps arrows a (n + 1) c := by
  induction n generalizing c with
  | zero =>
    obtain rfl : b = c := h
    exact ⟨a, rfl, hab⟩
  | succ n ih =>
    obtain ⟨d, hd, hdc⟩ := h
    exact ⟨d, ih hd, hdc⟩

theorem IsWalk.steps {walk : List α} (h : IsWalk (Arrow arrows) a b walk) :
    Steps arrows a (walk.length - 1) b := by
  induction walk generalizing a with
  | nil => cases h.head
  | cons x walk ih =>
    obtain rfl := Option.some.inj h.head
    cases walk with
    | nil => exact Option.some.inj h.last
    | cons y walk =>
      obtain ⟨hxy, hchain⟩ := List.isChain_cons_cons.1 h.chain
      exact (ih ⟨rfl, h.last, hchain⟩).head hxy

/-- A number of arrows leads from one vertex to another exactly when a walk takes them. -/
theorem steps_iff_exists_walk :
    Steps arrows a n b ↔ ∃ walk, IsWalk (Arrow arrows) a b walk ∧ walk.length = n + 1 := by
  constructor
  · intro h
    induction n generalizing b with
    | zero =>
      obtain rfl : a = b := h
      exact ⟨[a], .single _ a, rfl⟩
    | succ n ih =>
      obtain ⟨c, hc, hcb⟩ := h
      obtain ⟨walk, hwalk, hlength⟩ := ih hc
      exact ⟨walk ++ [b], hwalk.concat hcb, by rw [List.length_append, hlength]; rfl⟩
  · rintro ⟨walk, hwalk, hlength⟩
    have hsteps := hwalk.steps
    rw [hlength, Nat.add_sub_cancel] at hsteps
    exact hsteps

/-! ### Renamed vertices -/

section Renamed

variable {β : Type} {f : α → β} {renamed : List (β × β)} {known : α → Prop}

theorem steps_renamed_iff (hdistinct : ∀ x, known x → ∀ y, known y → f x = f y → x = y)
    (hends : ∀ x y, Arrow arrows x y → known x ∧ known y)
    (hrenamed : ∀ u v, Arrow renamed u v ↔ ∃ x y, Arrow arrows x y ∧ f x = u ∧ f y = v)
    (ha : known a) (hb : known b) : Steps renamed (f a) n (f b) ↔ Steps arrows a n b := by
  induction n generalizing b with
  | zero => exact ⟨hdistinct a ha b hb, congrArg f⟩
  | succ n ih =>
    constructor
    · rintro ⟨u, hu, hub⟩
      obtain ⟨x, y, hxy, rfl, hy⟩ := (hrenamed u _).1 hub
      obtain rfl := hdistinct y (hends x y hxy).2 b hb hy
      exact ⟨x, (ih (hends x y hxy).1).1 hu, hxy⟩
    · rintro ⟨x, hx, hxb⟩
      exact ⟨f x, (ih (hends x b hxb).1).2 hx, (hrenamed _ _).2 ⟨x, b, hxb, rfl, rfl⟩⟩

/-- Vertices are as far apart under other names. -/
theorem distance_renamed_iff (hdistinct : ∀ x, known x → ∀ y, known y → f x = f y → x = y)
    (hends : ∀ x y, Arrow arrows x y → known x ∧ known y)
    (hrenamed : ∀ u v, Arrow renamed u v ↔ ∃ x y, Arrow arrows x y ∧ f x = u ∧ f y = v)
    (ha : known a) (hb : known b) : Distance renamed (f a) n (f b) ↔ Distance arrows a n b := by
  have hsteps : ∀ m, Steps renamed (f a) m (f b) ↔ Steps arrows a m b := fun _ =>
    steps_renamed_iff hdistinct hends hrenamed ha hb
  constructor
  · rintro ⟨hn, hleast⟩
    exact ⟨(hsteps n).1 hn, fun m hm hs => hleast m hm ((hsteps m).2 hs)⟩
  · rintro ⟨hn, hleast⟩
    exact ⟨(hsteps n).2 hn, fun m hm hs => hleast m hm ((hsteps m).1 hs)⟩

end Renamed

/-! ### Rounds of the search -/

variable {paths : List (α × List α)} {seen : List α}

/-- Where the search from a vertex stands after a number of rounds: its paths are walks of as many
steps, they end in the vertices at that distance, and everything nearer has been seen as well. -/
structure Layer (arrows : List (α × α)) (a : α) (n : Nat) (paths : List (α × List α))
    (seen : List α) : Prop where
  walks : ∀ p ∈ paths, IsWalk (Arrow arrows) a p.1 (p.1 :: p.2).reverse
  lengths : ∀ p ∈ paths, p.2.length = n
  ends : ∀ b, b ∈ paths.map (·.1) ↔ Distance arrows a n b
  seen : ∀ b, b ∈ seen ↔ ∃ m ≤ n, Steps arrows a m b

theorem Layer.start (arrows : List (α × α)) (a : α) : Layer arrows a 0 [(a, [])] [a] where
  walks := by
    intro p hp
    obtain rfl := List.mem_singleton.1 hp
    exact .single _ a
  lengths := by
    intro p hp
    obtain rfl := List.mem_singleton.1 hp
    rfl
  ends := by
    intro b
    rw [List.map_singleton, List.mem_singleton]
    exact ⟨fun h => ⟨h.symm, fun m hm => absurd hm (Nat.not_lt_zero m)⟩, fun h => h.steps.symm⟩
  seen := by
    intro b
    rw [List.mem_singleton]
    constructor
    · exact fun h => ⟨0, Nat.le_refl 0, h.symm⟩
    · rintro ⟨m, hm, h⟩
      obtain rfl := Nat.le_zero.1 hm
      exact h.symm

variable [DecidableEq α]

/-- A path that is one step longer prolongs one of the given ones. -/
theorem exists_of_mem_prolong {next : α → List α} {p : α × List α}
    (h : p ∈ (prolong next paths seen).1) : ∃ q ∈ paths, p.2 = q.1 :: q.2 ∧ p.1 ∈ next q.1 := by
  induction paths generalizing seen with
  | nil => exact absurd h List.not_mem_nil
  | cons q paths ih =>
    obtain ⟨d, before⟩ := q
    simp only [prolong, List.mem_append, List.mem_map, List.mem_eraseDups, List.mem_filter] at h
    rcases h with ⟨e, ⟨he, -⟩, rfl⟩ | h
    · exact ⟨_, List.mem_cons_self, rfl, he⟩
    · obtain ⟨q, hq, hlonger⟩ := ih h
      exact ⟨q, List.mem_cons_of_mem _ hq, hlonger⟩

namespace Layer

/-- What one more arrow leads to has been seen or is found in the next round. -/
theorem seen_or_found (h : Layer arrows a n paths seen) (hc : Steps arrows a n c)
    (hcb : Arrow arrows c b) :
    b ∈ seen ∨ b ∈ (Graph.prolong (successors arrows) paths seen).1.map (·.1) := by
  by_cases hnear : ∃ m < n, Steps arrows a m c
  · obtain ⟨m, hm, hsteps⟩ := hnear
    exact .inl ((h.seen b).2 ⟨m + 1, hm, c, hsteps, hcb⟩)
  · have hdist : Distance arrows a n c := ⟨hc, fun m hm hs => hnear ⟨m, hm, hs⟩⟩
    obtain ⟨p, hp, rfl⟩ := List.mem_map.1 ((h.ends c).2 hdist)
    by_cases hb : b ∈ seen
    · exact .inl hb
    · exact .inr (mem_prolong.2 ⟨hb, p, hp, mem_successors.2 hcb⟩)

theorem distance_of_mem_prolong (h : Layer arrows a n paths seen)
    (hb : b ∈ (Graph.prolong (successors arrows) paths seen).1.map (·.1)) :
    Distance arrows a (n + 1) b := by
  obtain ⟨hunseen, p, hp, hnext⟩ := mem_prolong.1 hb
  have hdist := (h.ends p.1).1 (List.mem_map_of_mem hp)
  exact ⟨⟨p.1, hdist.steps, mem_successors.1 hnext⟩, fun m hm hs =>
    hunseen ((h.seen b).2 ⟨m, Nat.le_of_lt_succ hm, hs⟩)⟩

theorem prolong (h : Layer arrows a n paths seen) :
    Layer arrows a (n + 1) (Graph.prolong (successors arrows) paths seen).1
      (Graph.prolong (successors arrows) paths seen).2 where
  walks := by
    intro p hp
    obtain ⟨q, hq, hbefore, hnext⟩ := exists_of_mem_prolong hp
    rw [List.reverse_cons, hbefore]
    exact (h.walks q hq).concat (mem_successors.1 hnext)
  lengths := by
    intro p hp
    obtain ⟨q, hq, hbefore, -⟩ := exists_of_mem_prolong hp
    rw [hbefore, List.length_cons, h.lengths q hq]
  ends := by
    intro b
    refine ⟨h.distance_of_mem_prolong, fun hdist => ?_⟩
    obtain ⟨c, hc, hcb⟩ := hdist.steps
    rcases h.seen_or_found hc hcb with hb | hb
    · obtain ⟨m, hm, hs⟩ := (h.seen b).1 hb
      exact absurd hs (hdist.least m (Nat.lt_succ_of_le hm))
    · exact hb
  seen := by
    intro b
    rw [mem_prolong_seen]
    constructor
    · rintro (hb | hb)
      · obtain ⟨m, hm, hs⟩ := (h.seen b).1 hb
        exact ⟨m, Nat.le_succ_of_le hm, hs⟩
      · exact ⟨n + 1, Nat.le_refl _, (h.distance_of_mem_prolong hb).steps⟩
    · rintro ⟨m, hm, hs⟩
      rcases Nat.lt_or_eq_of_le hm with hm | rfl
      · exact .inl ((h.seen b).2 ⟨m, Nat.le_of_lt_succ hm, hs⟩)
      · obtain ⟨c, hc, hcb⟩ := hs
        exact h.seen_or_found hc hcb

/-- Every path that the search returns is a walk, and a shortest one. -/
theorem of_mem_search (h : Layer arrows a n paths seen) {rounds : Nat} {p : α × List α}
    (hp : p ∈ search (successors arrows) rounds paths seen) :
    IsWalk (Arrow arrows) a p.1 (p.1 :: p.2).reverse ∧ Distance arrows a p.2.length p.1 := by
  have hfound : ∀ {n paths seen}, Layer arrows a n paths seen → p ∈ paths →
      IsWalk (Arrow arrows) a p.1 (p.1 :: p.2).reverse ∧ Distance arrows a p.2.length p.1 := by
    intro n paths seen h hp
    rw [h.lengths p hp]
    exact ⟨h.walks p hp, (h.ends p.1).1 (List.mem_map_of_mem hp)⟩
  induction rounds generalizing n paths seen with
  | zero => exact hfound h hp
  | succ rounds ih =>
    simp only [search] at hp
    split at hp
    · exact absurd hp List.not_mem_nil
    · rcases List.mem_append.1 hp with hp | hp
      · exact hfound h hp
      · exact ih h.prolong hp

end Layer

/-! ### What the search returns -/

/-- The path that is found is a walk, and no walk between its ends has fewer steps. -/
theorem shortestPath?_eq_some {path : List α} (h : shortestPath? arrows a b = some path) :
    IsWalk (Arrow arrows) a b path ∧ Distance arrows a (path.length - 1) b := by
  obtain ⟨p, hfind, rfl⟩ := Option.map_eq_some_iff.1 h
  have hend := List.find?_some hfind
  obtain rfl : p.1 = b := of_decide_eq_true hend
  have hfound := (Layer.start arrows a).of_mem_search (List.mem_of_find?_eq_some hfind)
  rw [List.length_reverse, List.length_cons, Nat.add_sub_cancel]
  exact hfound

/-- No walk between the ends of the path that is found has fewer vertices. -/
theorem length_shortestPath?_le {path walk : List α} (h : shortestPath? arrows a b = some path)
    (hwalk : IsWalk (Arrow arrows) a b walk) : path.length ≤ walk.length := by
  obtain ⟨-, hdist⟩ := shortestPath?_eq_some h
  have hle : ¬ walk.length - 1 < path.length - 1 := fun hlt => hdist.least _ hlt hwalk.steps
  have hpos : walk.length ≠ 0 := by
    intro hzero
    rw [List.length_eq_zero_iff] at hzero
    subst hzero
    cases hwalk.head
  omega

/-- Nothing is found exactly when no walk leads from the first vertex to the second one. -/
theorem shortestPath?_eq_none :
    shortestPath? arrows a b = none ↔ ∀ walk, ¬ IsWalk (Arrow arrows) a b walk := by
  constructor
  · intro hnone walk hwalk
    have hsome := isSome_shortestPath?.2 hwalk.steps.reflTransGen
    rw [hnone] at hsome
    cases hsome
  · intro hno
    cases hpath : shortestPath? arrows a b with
    | none => rfl
    | some path => exact absurd (shortestPath?_eq_some hpath).1 (hno path)

/-- The search returns a path of as many steps as the distance, where there is one. -/
theorem shortestPath?_length : (shortestPath? arrows a b).map (fun path => path.length - 1) = some n ↔
    Distance arrows a n b := by
  rw [Option.map_eq_some_iff]
  constructor
  · rintro ⟨path, hpath, rfl⟩
    exact (shortestPath?_eq_some hpath).2
  · intro h
    obtain ⟨path, hpath⟩ :=
      Option.isSome_iff_exists.1 (isSome_shortestPath?.2 h.steps.reflTransGen)
    exact ⟨path, hpath, (shortestPath?_eq_some hpath).2.unique h⟩

end Crosswalk.Graph
