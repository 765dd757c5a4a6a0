/-
  Kin.Lib.Gossip

  **FACTS THAT PEERS RE-OFFER TO EACH OTHER.**

  One fact and a set of parties.  `K x y` says that `x` has the fact from `y`;
  `K x x` that `x` has it of its own.  A party re-offers what it has, and the
  only loop prevention is that it does not offer to `y` what it has from `y`.

    • `Settled` — no exchange would change anything,
    • `Settled.source_or_relay` — in a settled state a fact that was received
      comes from a party that has it of its own, or through a THIRD party,
    • `Settled.source_of_two` — two parties alone cannot keep a fact alive,
    • `rounds_forget_settled` — three can: there is an order of exchanges after
      which the only source may forget the fact and nothing moves any more.
-/
import Mathlib.Data.Finset.Card

namespace Kin.Lib

/-- Who has the fact from whom. -/
def Knows (α : Type*) := α → α → Prop

namespace Knows

variable {α : Type*}

/-- `x` has the fact from someone other than `y`, and so offers it to `y`. -/
def offers (K : Knows α) (x y : α) : Prop := ∃ z, z ≠ y ∧ K x z

/-- `y` replaces what it has from `x` by what `x` offers. -/
def exchange (K : Knows α) (x y : α) : Knows α :=
  fun p q => (p = y ∧ q = x ∧ K.offers x y) ∨ (¬ (p = y ∧ q = x) ∧ K p q)

/-- `a` no longer has the fact of its own. -/
def forget (K : Knows α) (a : α) : Knows α := fun p q => K p q ∧ ¬ (p = a ∧ q = a)

/-- Among the parties in `S` no exchange changes anything. -/
def Settled (K : Knows α) (S : Finset α) : Prop :=
  ∀ x ∈ S, ∀ y ∈ S, x ≠ y → (K y x ↔ K.offers x y)

/-! ## §1. Settled states. -/

/-- **Where a received fact comes from.** -/
theorem Settled.source_or_relay {K : Knows α} {S : Finset α} (h : K.Settled S) {x y : α}
    (hx : x ∈ S) (hy : y ∈ S) (hxy : K x y) :
    K x x ∨ K y y ∨ ∃ z, z ≠ x ∧ z ≠ y ∧ K y z := by
  by_cases hne : y = x
  · rw [hne] at hxy
    exact Or.inl hxy
  · obtain ⟨z, hzx, hyz⟩ := (h y hy x hx hne).mp hxy
    by_cases hzy : z = y
    · rw [hzy] at hyz
      exact Or.inr (Or.inl hyz)
    · exact Or.inr (Or.inr ⟨z, hzx, hzy, hyz⟩)

/-- **Two parties alone**: whatever they have, one of them has of its own. -/
theorem Settled.source_of_two {K : Knows α} {S : Finset α} (h : K.Settled S) (hcard : S.card ≤ 2)
    (hin : ∀ x y, K x y → y ∈ S) {x y : α} (hx : x ∈ S) (hxy : K x y) : K x x ∨ K y y := by
  have hy := hin x y hxy
  rcases h.source_or_relay hx hy hxy with hxx | hyy | ⟨z, hzx, hzy, hyz⟩
  · exact Or.inl hxx
  · exact Or.inr hyy
  · -- a third party would make three
    by_cases hne : x = y
    · rw [hne] at hxy ⊢
      exact Or.inl hxy
    · have h3 : 2 < S.card :=
        Finset.two_lt_card.mpr ⟨x, hx, y, hy, z, hin y z hyz, hne, hzx.symm, hzy.symm⟩
      omega

/-! ## §2. A sequence of exchanges. -/

/-- Exchanges one after the other. -/
def sweep (K : Knows α) (ps : List (α × α)) : Knows α :=
  ps.foldl (fun K p => K.exchange p.1 p.2) K

/-- An exchange in which the sender has something to offer only adds. -/
theorem exchange_of_offers {K : Knows α} {x y : α} (h : K.offers x y) (p q : α) :
    K.exchange x y p q ↔ K p q ∨ (p = y ∧ q = x) := by
  unfold exchange
  by_cases hpq : p = y ∧ q = x
  · simp [hpq, h]
  · simp only [hpq, not_false_eq_true, true_and, or_false]
    exact ⟨fun h' => h'.elim (fun h'' => absurd ⟨h''.1, h''.2.1⟩ hpq) id, Or.inr⟩

theorem offers_mono {K K' : Knows α} (hK : ∀ p q, K p q → K' p q) {x y : α} (h : K.offers x y) :
    K'.offers x y := by
  obtain ⟨z, hz, hxz⟩ := h
  exact ⟨z, hz, hK x z hxz⟩

/-- **A sweep whose senders all have something to offer** adds exactly its
pairs.  By induction on the list: what an exchange adds leaves every later
sender with at least what it had. -/
theorem sweep_iff (ps : List (α × α)) :
    ∀ {K : Knows α}, (∀ p ∈ ps, K.offers p.1 p.2) →
      ∀ p q, K.sweep ps p q ↔ K p q ∨ (q, p) ∈ ps := by
  induction ps with
  | nil =>
    intro K _ p q
    simp [sweep]
  | cons xy ps ih =>
    obtain ⟨x, y⟩ := xy
    intro K h p q
    have hxy : K.offers x y := h (x, y) List.mem_cons_self
    have hrest : ∀ r ∈ ps, (K.exchange x y).offers r.1 r.2 := by
      intro r hr
      exact offers_mono (fun p q hpq => (exchange_of_offers hxy p q).mpr (Or.inl hpq))
        (h r (List.mem_cons_of_mem _ hr))
    show (K.exchange x y).sweep ps p q ↔ _
    rw [ih hrest, exchange_of_offers hxy, List.mem_cons, Prod.mk.injEq, or_assoc]
    refine or_congr_right (or_congr_left ?_)
    exact and_comm

theorem sweep_append (K : Knows α) (ps qs : List (α × α)) :
    K.sweep (ps ++ qs) = (K.sweep ps).sweep qs := List.foldl_append

/-! ## §3. Three parties keep a forgotten fact. -/

/-- The source offers to everyone. -/
def outRound (a : α) (xs : List α) : List (α × α) := xs.map (fun x => (a, x))

theorem mem_outRound {a : α} {xs : List α} {p q : α} : (p, q) ∈ outRound a xs ↔ p = a ∧ q ∈ xs := by
  unfold outRound
  rw [List.mem_map]
  refine ⟨fun ⟨x, hx, h⟩ => ?_, fun ⟨hp, hq⟩ => ⟨q, hq, by rw [hp]⟩⟩
  obtain ⟨h1, h2⟩ := Prod.mk.inj h
  exact ⟨h1.symm, h2 ▸ hx⟩

/-- Everyone offers to the source. -/
def backRound (a : α) (xs : List α) : List (α × α) := xs.map (fun x => (x, a))

theorem mem_backRound {a : α} {xs : List α} {p q : α} :
    (p, q) ∈ backRound a xs ↔ p ∈ xs ∧ q = a := by
  unfold backRound
  rw [List.mem_map]
  refine ⟨fun ⟨x, hx, h⟩ => ?_, fun ⟨hp, hq⟩ => ⟨p, hp, by rw [hq]⟩⟩
  obtain ⟨h1, h2⟩ := Prod.mk.inj h
  exact ⟨h1 ▸ hx, h2.symm⟩

section Rounds

variable [DecidableEq α]

/-- Everyone else offers to everyone else. -/
def crossRound (xs : List α) : List (α × α) :=
  xs.flatMap fun x => (xs.filter (fun y => y ≠ x)).map (fun y => (x, y))

def rounds (a : α) (xs : List α) : List (α × α) :=
  outRound a xs ++ crossRound xs ++ backRound a xs

theorem mem_crossRound {xs : List α} {p q : α} :
    (p, q) ∈ crossRound xs ↔ p ∈ xs ∧ q ∈ xs ∧ q ≠ p := by
  unfold crossRound
  rw [List.mem_flatMap]
  refine ⟨fun ⟨x, hx, h⟩ => ?_, fun ⟨hp, hq, hne⟩ => ⟨p, hp, ?_⟩⟩
  · obtain ⟨y, hy, hxy⟩ := List.mem_map.mp h
    obtain ⟨h1, h2⟩ := Prod.mk.inj hxy
    obtain ⟨hmem, hne⟩ := List.mem_filter.mp hy
    subst h1 h2
    exact ⟨hx, hmem, by simpa using hne⟩
  · exact List.mem_map.mpr ⟨q, List.mem_filter.mpr ⟨hq, by simpa using hne⟩, rfl⟩

/-- The pairs of the rounds are distinct parties. -/
theorem ne_of_mem_rounds {a : α} {xs : List α} (ha : a ∉ xs) {p q : α} (h : (p, q) ∈ rounds a xs) :
    p ≠ q := by
  unfold rounds at h
  rw [List.mem_append, List.mem_append, mem_outRound, mem_crossRound, mem_backRound] at h
  intro hpq
  subst hpq
  rcases h with (⟨hp, hx⟩ | ⟨_, _, hne⟩) | ⟨hx, hp⟩
  · exact ha (hp ▸ hx)
  · exact hne rfl
  · exact ha (hp ▸ hx)

theorem parties_of_mem_rounds {a : α} {xs : List α} {p q : α} (h : (p, q) ∈ rounds a xs) :
    (p = a ∨ p ∈ xs) ∧ (q = a ∨ q ∈ xs) := by
  unfold rounds at h
  rw [List.mem_append, List.mem_append, mem_outRound, mem_crossRound, mem_backRound] at h
  rcases h with (⟨hp, hq⟩ | ⟨hp, hq, _⟩) | ⟨hp, hq⟩
  · exact ⟨Or.inl hp, Or.inr hq⟩
  · exact ⟨Or.inr hp, Or.inr hq⟩
  · exact ⟨Or.inr hp, Or.inl hq⟩

theorem mem_rounds {a : α} {xs : List α} {p q : α} (hp : p = a ∨ p ∈ xs) (hq : q = a ∨ q ∈ xs)
    (hne : p ≠ q) : (p, q) ∈ rounds a xs := by
  unfold rounds
  rw [List.mem_append, List.mem_append, mem_outRound, mem_crossRound, mem_backRound]
  rcases hp with hp | hp
  · rcases hq with hq | hq
    · exact absurd (hp.trans hq.symm) hne
    · exact Or.inl (Or.inl ⟨hp, hq⟩)
  · rcases hq with hq | hq
    · exact Or.inr ⟨hp, hq⟩
    · exact Or.inl (Or.inr ⟨hp, hq, hne.symm⟩)

/-- **After the rounds everyone has the fact from everyone else**, provided
the source has at least two others to offer it to. -/
theorem sweep_rounds {K : Knows α} {a : α} {xs : List α} (ha : a ∉ xs) (hK : K a a)
    (hother : ∀ x ∈ xs, ∃ y ∈ xs, y ≠ x) (p q : α) :
    K.sweep (rounds a xs) p q ↔ K p q ∨ (q, p) ∈ rounds a xs := by
  have hne : ∀ x ∈ xs, a ≠ x := fun x hx h => ha (h ▸ hx)
  -- out: the source has the fact of its own
  have hout := sweep_iff (outRound a xs) (K := K) (by
    intro ⟨p, q⟩ hpq
    obtain ⟨hp, hq⟩ := mem_outRound.mp hpq
    exact ⟨a, hne q hq, hp ▸ hK⟩)
  -- cross: everyone has it from the source now
  have hcross := sweep_iff (crossRound xs) (K := K.sweep (outRound a xs)) (by
    intro ⟨p, q⟩ hpq
    obtain ⟨hp, hq, _⟩ := mem_crossRound.mp hpq
    exact ⟨a, hne q hq, (hout p a).mpr (Or.inr (mem_outRound.mpr ⟨rfl, hp⟩))⟩)
  -- back: everyone has it from one of the others
  have hback := sweep_iff (backRound a xs) (K := (K.sweep (outRound a xs)).sweep (crossRound xs)) (by
    intro ⟨p, q⟩ hpq
    obtain ⟨hp, hq⟩ := mem_backRound.mp hpq
    obtain ⟨y, hy, hyp⟩ := hother p hp
    refine ⟨y, fun h => hne y hy (h.trans hq).symm, (hcross p y).mpr (Or.inr ?_)⟩
    exact mem_crossRound.mpr ⟨hy, hp, hyp.symm⟩)
  unfold rounds
  rw [sweep_append, sweep_append, hback, hcross, hout, List.mem_append, List.mem_append, or_assoc,
    or_assoc, or_assoc]

/-- **The source forgets, and nothing moves**: everyone still offers the fact
to everyone else. -/
theorem rounds_forget_settled {K : Knows α} {a : α} {xs : List α} (ha : a ∉ xs)
    (hK : ∀ p q, K p q ↔ p = a ∧ q = a) (hother : ∀ x ∈ xs, ∃ y ∈ xs, y ≠ x) {S : Finset α}
    (hS : ∀ x, x ∈ S ↔ x = a ∨ x ∈ xs) :
    ((K.sweep (rounds a xs)).forget a).Settled S
      ∧ (∀ x, ¬ (K.sweep (rounds a xs)).forget a x x)
      ∧ ∀ x ∈ S, ∀ y ∈ S, x ≠ y → (K.sweep (rounds a xs)).forget a y x := by
  have hsweep := sweep_rounds ha ((hK a a).mpr ⟨rfl, rfl⟩) hother
  have hfull : ∀ x ∈ S, ∀ y ∈ S, x ≠ y → (K.sweep (rounds a xs)).forget a y x := by
    intro x hx y hy hxy
    refine ⟨(hsweep y x).mpr (Or.inr (mem_rounds ((hS x).mp hx) ((hS y).mp hy) hxy)), ?_⟩
    exact fun h => hxy (h.2.trans h.1.symm)
  refine ⟨fun x hx y hy hxy => iff_of_true (hfull x hx y hy hxy) ?_, fun x hx => ?_, hfull⟩
  · -- a third party: the source, or another of the others
    have hthird : ∃ z ∈ S, z ≠ x ∧ z ≠ y := by
      rcases (hS x).mp hx with hxa | hxx
      · rcases (hS y).mp hy with hya | hyx
        · exact absurd (hxa.trans hya.symm) hxy
        · obtain ⟨z, hz, hzy⟩ := hother y hyx
          exact ⟨z, (hS z).mpr (Or.inr hz), fun h => ha ((h.trans hxa) ▸ hz), hzy⟩
      · rcases (hS y).mp hy with hya | hyx
        · obtain ⟨z, hz, hzx⟩ := hother x hxx
          exact ⟨z, (hS z).mpr (Or.inr hz), hzx, fun h => ha ((h.trans hya) ▸ hz)⟩
        · exact ⟨a, (hS a).mpr (Or.inl rfl), fun h => ha (h ▸ hxx), fun h => ha (h ▸ hyx)⟩
    obtain ⟨z, hz, hzx, hzy⟩ := hthird
    exact ⟨z, hzy, hfull z hz x hx hzx⟩
  · obtain ⟨hxx, hna⟩ := hx
    rcases (hsweep x x).mp hxx with h | h
    · exact hna ((hK x x).mp h)
    · exact ne_of_mem_rounds ha h rfl

end Rounds

end Knows

end Kin.Lib
