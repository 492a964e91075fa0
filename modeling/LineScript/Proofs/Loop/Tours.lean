import Mathlib

/-!
# Tours

A loop that goes into the places it comes to takes the next one off a list, and puts what is inside it in front of the rest
(`Tour.next`). So it goes depth first: from each place through all that is inside it, and only then to the next one. Where the places
become smaller on the way down it ends (`Tour.exists_tour`), and where they have paths of their own it comes to each of them once
(`Tour.nodup`). Such a loop (`TourLoop`) hands out the items of the places it comes to, one place after the other
(`TourLoop.yields_of_tour`).
-/

namespace LineScript

variable {α : Type}

/-- What is visited from some places on: the first one, then, in the same way, the places inside it, and then the rest. -/
inductive Tour (inner : α → List α) : List α → List α → Prop
  | nil : Tour inner [] []
  | visit {a : α} {rest inside after : List α} (hinside : Tour inner (inner a) inside) (hafter : Tour inner rest after) :
      Tour inner (a :: rest) (a :: (inside ++ after))

namespace Tour

variable {inner : α → List α} {todo visited : List α}

/-- A tour of some places and then a tour of others is one of all. -/
theorem append {rest after : List α} (h : Tour inner todo visited) (hafter : Tour inner rest after) :
    Tour inner (todo ++ rest) (visited ++ after) := by
  induction h with
  | nil => exact hafter
  | visit hinside _ _ ih =>
    rw [List.cons_append, List.cons_append, List.append_assoc]
    exact .visit hinside ih

/-- After a place, what is inside it comes before the rest. -/
theorem next {a : α} {rest : List α} (h : Tour inner (a :: rest) visited) :
    ∃ more, visited = a :: more ∧ Tour inner (inner a ++ rest) more := by
  cases h with
  | visit hinside hafter => exact ⟨_, rfl, hinside.append hafter⟩

/-- Where places become smaller on the way down, a tour ends, and is no longer than they are large. -/
theorem exists_tour {size : α → Nat} {p : α → Prop} (hinner : ∀ a, p a → ∀ b ∈ inner a, p b)
    (hsize : ∀ a, p a → ((inner a).map size).sum < size a) (todo : List α) (htodo : ∀ a ∈ todo, p a) :
    ∃ visited, Tour inner todo visited ∧ visited.length ≤ (todo.map size).sum := by
  induction hn : (todo.map size).sum using Nat.strongRecOn generalizing todo with
  | ind n ih =>
    cases todo with
    | nil => exact ⟨[], .nil, Nat.zero_le _⟩
    | cons a rest =>
      have ha := htodo a List.mem_cons_self
      have hsmaller := hsize a ha
      rw [List.map_cons, List.sum_cons] at hn
      obtain ⟨inside, hinside, hlength⟩ := ih _ (by omega) (inner a) (hinner a ha) rfl
      obtain ⟨after, hafter, hlength'⟩ := ih _ (by omega) rest (fun b hb => htodo b (List.mem_cons_of_mem _ hb)) rfl
      refine ⟨_, .visit hinside hafter, ?_⟩
      rw [List.length_cons, List.length_append]
      omega

/-! ## What is visited -/

theorem subset (h : Tour inner todo visited) : todo ⊆ visited := by
  induction h with
  | nil => exact List.Subset.refl _
  | visit _ _ _ ih =>
    exact List.cons_subset_cons _ (List.Subset.trans ih (List.subset_append_right _ _))

/-- What is inside a place that is visited is visited too. -/
theorem inner_subset (h : Tour inner todo visited) : ∀ a ∈ visited, inner a ⊆ visited := by
  induction h with
  | nil => exact nofun
  | @visit a rest inside after hinside _ ihinside ihafter =>
    have hwithin : inside ⊆ a :: (inside ++ after) := fun c hc => by simp [hc]
    have hbeside : after ⊆ a :: (inside ++ after) := fun c hc => by simp [hc]
    intro b hb
    rcases List.mem_cons.mp hb with rfl | hb
    · exact List.Subset.trans hinside.subset hwithin
    · rcases List.mem_append.mp hb with hb | hb
      · exact List.Subset.trans (ihinside b hb) hwithin
      · exact List.Subset.trans (ihafter b hb) hbeside

/-- What holds of the places a tour starts from, and of what is inside a place if it holds of that, holds of all that is visited. -/
theorem forall_visited {p : α → Prop} (h : Tour inner todo visited) (htodo : ∀ a ∈ todo, p a)
    (hinner : ∀ a, p a → ∀ b ∈ inner a, p b) : ∀ a ∈ visited, p a := by
  induction h with
  | nil => exact nofun
  | @visit a rest inside after _ _ ihinside ihafter =>
    have ha := htodo a List.mem_cons_self
    rintro b (_ | ⟨_, hb⟩)
    · exact ha
    · rcases List.mem_append.mp hb with hb | hb
      · exact ihinside (hinner a ha) b hb
      · exact ihafter (fun c hc => htodo c (List.mem_cons_of_mem _ hc)) b hb

/-! ## Places with paths -/

variable {ν : Type} {path : α → List ν}

/-- Neither of two paths leads on from the other. -/
def Apart (p q : List ν) : Prop :=
  ¬ p <+: q ∧ ¬ q <+: p

/-- Paths that differ in their last step lead nowhere in common. -/
theorem apart_concat {p : List ν} {m n : ν} (h : p ++ [m] ≠ p ++ [n]) : Apart (p ++ [m]) (p ++ [n]) :=
  ⟨fun hleads => h (hleads.eq_of_length (by simp)), fun hleads => h (hleads.eq_of_length (by simp)).symm⟩

/-- Where the path of what is inside a place is one step longer, all that is visited is at or below what the tour starts from. -/
theorem exists_above (h : Tour inner todo visited) (hinner : ∀ a ∈ visited, ∀ b ∈ inner a, ∃ n, path b = path a ++ [n]) :
    ∀ b ∈ visited, ∃ a ∈ todo, path a <+: path b := by
  induction h with
  | nil => exact nofun
  | @visit a rest inside after _ _ ihinside ihafter =>
    rintro b (_ | ⟨_, hb⟩)
    · exact ⟨a, List.mem_cons_self, List.prefix_refl _⟩
    · rcases List.mem_append.mp hb with hb | hb
      · obtain ⟨c, hc, hleads⟩ := ihinside (fun d hd => hinner d (by simp [hd])) b hb
        obtain ⟨n, hpath⟩ := hinner a List.mem_cons_self c hc
        exact ⟨a, List.mem_cons_self, (hpath ▸ List.prefix_append _ _ : path a <+: path c).trans hleads⟩
      · obtain ⟨c, hc, hleads⟩ := ihafter (fun d hd => hinner d (by simp [hd])) b hb
        exact ⟨c, List.mem_cons_of_mem _ hc, hleads⟩

/-- Each path is visited once at most, if none of those at the start leads on from another one. -/
theorem nodup (h : Tour inner todo visited) (hinner : ∀ a ∈ visited, ∀ b ∈ inner a, ∃ n, path b = path a ++ [n])
    (hdistinct : ∀ a ∈ visited, ((inner a).map path).Nodup) (htodo : todo.Pairwise fun a b => Apart (path a) (path b)) :
    (visited.map path).Nodup := by
  induction h with
  | nil => exact List.nodup_nil
  | @visit a rest inside after hinside hafter ihinside ihafter =>
    obtain ⟨hfirst, hrest⟩ := List.pairwise_cons.mp htodo
    have hbelow : ∀ b ∈ inside, ∃ n, path a ++ [n] <+: path b := by
      intro b hb
      obtain ⟨c, hc, hleads⟩ := hinside.exists_above (fun d hd => hinner d (by simp [hd])) b hb
      obtain ⟨n, hpath⟩ := hinner a List.mem_cons_self c hc
      exact ⟨n, hpath ▸ hleads⟩
    have hbeside : ∀ b ∈ after, ∃ c, Apart (path a) (path c) ∧ path c <+: path b := by
      intro b hb
      obtain ⟨c, hc, hleads⟩ := hafter.exists_above (fun d hd => hinner d (by simp [hd])) b hb
      exact ⟨c, hfirst c hc, hleads⟩
    -- What starts with the path of the place is not beside it.
    have hapart : ∀ b ∈ after, ¬ path a <+: path b := by
      intro b hb hleads
      obtain ⟨c, ⟨hac, hca⟩, hc⟩ := hbeside b hb
      exact (List.prefix_or_prefix_of_prefix hleads hc).elim hac hca
    have hinward : (inner a).Pairwise fun b c => Apart (path b) (path c) := by
      refine (List.pairwise_map.mp (hdistinct a List.mem_cons_self)).imp_of_mem fun hb hc hne => ?_
      obtain ⟨m, hm⟩ := hinner a List.mem_cons_self _ hb
      obtain ⟨n, hn⟩ := hinner a List.mem_cons_self _ hc
      rw [hm, hn] at hne ⊢
      exact apart_concat hne
    rw [List.map_cons, List.map_append, List.nodup_cons, List.nodup_append]
    refine ⟨fun hmem => ?_, ihinside (fun d hd => hinner d (by simp [hd])) (fun b hb => hdistinct b (by simp [hb])) hinward,
      ihafter (fun d hd => hinner d (by simp [hd])) (fun b hb => hdistinct b (by simp [hb])) hrest, fun p hp q hq heq => ?_⟩
    · rcases List.mem_append.mp hmem with hmem | hmem
      · obtain ⟨b, hb, hpath⟩ := List.mem_map.mp hmem
        obtain ⟨n, hleads⟩ := hbelow b hb
        have hlength := hleads.length_le
        rw [hpath, List.length_append, List.length_singleton] at hlength
        omega
      · obtain ⟨b, hb, hpath⟩ := List.mem_map.mp hmem
        exact hapart b hb (hpath ▸ List.prefix_refl _)
    · obtain ⟨b, hb, rfl⟩ := List.mem_map.mp hp
      obtain ⟨c, hc, rfl⟩ := List.mem_map.mp hq
      obtain ⟨n, hleads⟩ := hbelow b hb
      exact hapart c hc (heq ▸ (List.prefix_append _ _).trans hleads)

end Tour

/-! ## Loops that make tours -/

/-- A loop over the items of places: its state with places to visit and with items that are ready, and what some rounds of it give,
an item with the state after it, or the end. A place takes one round. -/
structure TourLoop (α β σ ρ : Type) where
  /-- The state with some places to visit and some items ready. -/
  going : List α → List β → σ
  /-- What at most so many rounds give. -/
  nextWithin : Nat → σ → ρ
  /-- An item was found. -/
  found : β → σ → ρ
  /-- There are no more items. -/
  ended : σ → ρ
  /-- The places inside a place. -/
  inner : α → List α
  /-- The items of a place. -/
  own : α → List β
  /-- Whether a place can be visited. -/
  Open : α → Prop
  ready : ∀ rounds todo b bs, nextWithin (rounds + 1) (going todo (b :: bs)) = found b (going todo bs)
  finish : ∀ rounds, nextWithin (rounds + 1) (going [] []) = ended (going [] [])
  visit : ∀ rounds a rest, Open a →
    nextWithin (rounds + 1) (going (a :: rest) []) = nextWithin rounds (going (inner a ++ rest) (own a))

namespace TourLoop

variable {β σ ρ : Type} (loop : TourLoop α β σ ρ) {todo visited : List α}

/-- The items that a state gives until there are none, and no place and no item is left. -/
inductive Yields (next : σ → ρ) : σ → List β → Prop
  | ended {c : σ} (h : next c = loop.ended (loop.going [] [])) : Yields next c []
  | found {c c' : σ} {b : β} {bs : List β} (h : next c = loop.found b c') (hrest : Yields next c' bs) : Yields next c (b :: bs)

variable {loop}

/-- With rounds for all places that are left, it does not matter how many there are. -/
theorem nextWithin_eq (htour : Tour loop.inner todo visited) (hopen : ∀ a ∈ visited, loop.Open a) {m n : Nat}
    (hm : visited.length < m) (hn : visited.length < n) (bs : List β) :
    loop.nextWithin m (loop.going todo bs) = loop.nextWithin n (loop.going todo bs) := by
  obtain ⟨m, rfl⟩ := Nat.exists_eq_add_one_of_ne_zero (Nat.ne_zero_of_lt hm)
  obtain ⟨n, rfl⟩ := Nat.exists_eq_add_one_of_ne_zero (Nat.ne_zero_of_lt hn)
  induction visited generalizing todo bs m n with
  | nil =>
    cases htour
    cases bs with
    | nil => rw [loop.finish, loop.finish]
    | cons b bs => rw [loop.ready, loop.ready]
  | cons a visited ih =>
    cases bs with
    | cons b bs => rw [loop.ready, loop.ready]
    | nil =>
      cases todo with
      | nil => cases htour
      | cons first rest =>
        obtain ⟨more, hmore, hnext⟩ := htour.next
        obtain ⟨rfl, rfl⟩ := List.cons.inj hmore
        rw [List.length_cons] at hm hn
        obtain ⟨m, rfl⟩ := Nat.exists_eq_add_one_of_ne_zero (n := m) (by omega)
        obtain ⟨n, rfl⟩ := Nat.exists_eq_add_one_of_ne_zero (n := n) (by omega)
        rw [loop.visit _ _ _ (hopen _ List.mem_cons_self), loop.visit _ _ _ (hopen _ List.mem_cons_self)]
        exact ih hnext (fun b hb => hopen b (List.mem_cons_of_mem _ hb)) _ m (by omega) n (by omega)

variable {next : σ → ρ} {extra : Nat}

/-- A loop yields what it would from a cursor with the same next item. -/
theorem Yields.of_next_eq {c c' : σ} {bs : List β} (h : loop.Yields next c' bs) (heq : next c = next c') :
    loop.Yields next c bs := by
  cases h with
  | ended h => exact .ended (heq.trans h)
  | found h hrest => exact .found (heq.trans h) hrest

variable
  (hnext : ∀ todo bs, next (loop.going todo bs) = loop.nextWithin (todo.length + extra + 2) (loop.going todo bs))

include hnext

/-- Items that are ready come first. -/
theorem yields_ready {items : List β} (bs : List β) (h : loop.Yields next (loop.going todo []) items) :
    loop.Yields next (loop.going todo bs) (bs ++ items) := by
  induction bs with
  | nil => exact h
  | cons b bs ih => exact .found ((hnext _ _).trans (loop.ready _ _ _ _)) ih

/-- The items are those of the places of the tour, one place after the other, if there are rounds enough for all of them. -/
theorem yields_of_tour (htour : Tour loop.inner todo visited) (hopen : ∀ a ∈ visited, loop.Open a)
    (hfew : visited.length ≤ todo.length + extra) : loop.Yields next (loop.going todo []) (visited.flatMap loop.own) := by
  induction visited generalizing todo with
  | nil =>
    cases htour
    exact .ended ((hnext _ _).trans (loop.finish _))
  | cons a visited ih =>
    cases todo with
    | nil => cases htour
    | cons first rest =>
      obtain ⟨more, hmore, htour⟩ := htour.next
      obtain ⟨rfl, rfl⟩ := List.cons.inj hmore
      have hrest := fun b hb => hopen b (List.mem_cons_of_mem _ hb)
      rw [List.length_cons, List.length_cons] at hfew
      have hlength : (loop.inner a ++ rest).length = (loop.inner a).length + rest.length := List.length_append
      have hsame : next (loop.going (a :: rest) []) = next (loop.going (loop.inner a ++ rest) (loop.own a)) := by
        rw [hnext, hnext, List.length_cons, loop.visit _ _ _ (hopen a List.mem_cons_self)]
        exact nextWithin_eq htour hrest (by omega) (by omega) _
      rw [List.flatMap_cons]
      exact (yields_ready hnext (loop.own a) (ih htour hrest (by omega))).of_next_eq hsame

end TourLoop

end LineScript
