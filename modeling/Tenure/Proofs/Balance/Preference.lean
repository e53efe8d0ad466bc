import Tenure.Proofs.Balance.Parts
import Tenure.Proofs.Balance.StableOrder

/-!
# Preferences compose

A preference moves the endpoints that carry one of its tags to the front and keeps the
order otherwise. Of several preferences, each applied to what the one before it left, the
last one decides first, since the later partitions are stable.

* `isStableSort_partitioned` — by induction on the preferences, with `IsStableSort.trans`
  as the step;
* `Strategy.balance_preferring` — a strategy whose parts are preferences partitions;
* `Strategy.preferences_compose` — so its result is in the order of the preferences, and
  is left as it is by a second call.
-/

namespace Tenure

variable {γ : Type} {preferences : List (List String)} {a b : Endpoint}

/-! ## The order of preference -/

/-- Whether two endpoints carry tags of the same preferences. -/
def agree (preferences : List (List String)) (a b : Endpoint) : Bool :=
  preferences.all fun tags => a.hasAnyTag tags == b.hasAnyTag tags

/-- The order of preference: a preference that only the second endpoint meets is followed by
one on which they differ. -/
def Precedes (preferences : List (List String)) (a b : Endpoint) : Prop :=
  ∀ earlier tags later, preferences = earlier ++ tags :: later → agree later a b = true →
    b.hasAnyTag tags = true → a.hasAnyTag tags = true

/-- Whether the first endpoint goes before the second one. The later preferences decide, and
where they do not, the first one does. -/
def outranks : List (List String) → Endpoint → Endpoint → Bool
  | [] => fun _ _ => false
  | tags :: later =>
    thenBy (outranks later) fun a b => a.hasAnyTag tags && !b.hasAnyTag tags

theorem outranks_self (preferences : List (List String)) (a : Endpoint) :
    outranks preferences a a = false := by
  induction preferences with
  | nil => rfl
  | cons tags later ih => simp [outranks, thenBy, ih]

theorem alike_outranks (preferences : List (List String)) (a b : Endpoint) :
    alike (outranks preferences) a b = agree preferences a b := by
  induction preferences with
  | nil => rfl
  | cons tags later ih =>
      rw [outranks, alike_thenBy, ih, agree, agree, List.all_cons, Bool.and_comm]
      congr 1
      cases ha : a.hasAnyTag tags <;> cases hb : b.hasAnyTag tags <;> simp [alike, ha, hb]

theorem precedes_of_not_outranks (h : outranks preferences b a = false) :
    Precedes preferences a b := by
  induction preferences with
  | nil =>
      intro earlier tags later hsplit
      exact absurd hsplit.symm (by simp)
  | cons first rest ih =>
      obtain ⟨hrest, hfirst⟩ := Bool.or_eq_false_iff.mp h
      intro earlier tags later hsplit hagree hb
      cases earlier with
      | nil =>
          -- the first preference decides, since the later ones do not
          obtain ⟨rfl, rfl⟩ := List.cons.inj hsplit
          rw [alike_outranks, agree] at hfirst
          simp only [hb, Bool.true_and] at hfirst
          simp only [agree, List.all_eq_true, beq_iff_eq] at hagree
          by_contra ha
          rw [Bool.eq_false_iff.mpr ha] at hfirst
          simp only [Bool.not_false, Bool.and_true, List.all_eq_false] at hfirst
          obtain ⟨t, ht, hdiffer⟩ := hfirst
          exact hdiffer (beq_iff_eq.mpr (hagree t ht).symm)
      | cons e earlier =>
          obtain ⟨rfl, rfl⟩ := List.cons.inj hsplit
          exact ih hrest earlier tags later rfl hagree hb

/-! ## Partitions one after the other -/

/-- Moves the endpoints that carry one of the tags to the front. -/
def partitioned (endpoints : List Endpoint) (tags : List String) : List Endpoint :=
  endpoints.filter (·.hasAnyTag tags) ++ endpoints.filter (!·.hasAnyTag tags)

/-- A preference without tags is met by no endpoint. -/
theorem partitioned_nil (endpoints : List Endpoint) : partitioned endpoints [] = endpoints := by
  have hnone : ∀ e : Endpoint, e.hasAnyTag [] = false := by
    intro e
    simp [Endpoint.hasAnyTag]
  simp [partitioned, hnone]

/-- The endpoints after every preference was applied to what the ones before it left. -/
def preferring (preferences : List (List String)) (endpoints : List Endpoint) : List Endpoint :=
  preferences.foldl partitioned endpoints

theorem isStableSort_preferring (preferences : List (List String)) (endpoints : List Endpoint) :
    IsStableSort (outranks preferences) endpoints (preferring preferences endpoints) := by
  induction preferences generalizing endpoints with
  | nil => exact ⟨List.pairwise_of_forall fun _ _ => rfl, fun _ => rfl⟩
  | cons tags later ih =>
      have hfirst := isStableSort_partition (·.hasAnyTag tags) endpoints
      exact hfirst.trans (ih (partitioned endpoints tags)) (outranks_self later)

theorem preferring_perm (preferences : List (List String)) (endpoints : List Endpoint) :
    (preferring preferences endpoints).Perm endpoints :=
  (isStableSort_preferring preferences endpoints).perm (outranks_self preferences)

theorem preferring_nil (preferences : List (List String)) : preferring preferences [] = [] :=
  (preferring_perm preferences []).eq_nil

theorem preferring_ne_nil (preferences : List (List String)) {endpoints : List Endpoint}
    (h : endpoints ≠ []) : preferring preferences endpoints ≠ [] := by
  intro hnil
  have hperm := preferring_perm preferences endpoints
  rw [hnil] at hperm
  exact h hperm.symm.eq_nil

/-! ## Strategies of preferences -/

namespace Strategy

/-- Preferences as parts; they remember nothing. -/
def preferringParts (γ : Type) (preferences : List (List String)) : List (Held γ) :=
  preferences.map fun tags => ⟨preferTags tags, fresh γ _⟩

theorem eq_preferringParts {parts : List (Held γ)}
    (h : parts.map Sigma.fst = preferences.map preferTags) :
    parts = preferringParts γ preferences := by
  induction preferences generalizing parts with
  | nil => exact List.map_eq_nil_iff.mp h
  | cons tags later ih =>
      obtain ⟨⟨s, state⟩, rest, rfl, hs, hrest⟩ := List.map_eq_cons_iff.mp h
      obtain rfl : s = preferTags tags := hs
      exact congrArg (List.cons _) (ih hrest)

variable [Generator γ]

theorem balance_preferTags (tags : List String) (state : (preferTags tags).State γ)
    (commons : Commons γ) (service : String) (endpoints : List Endpoint) :
    (preferTags tags).balance state commons service endpoints =
      { state, commons, endpoints := partitioned endpoints tags } := by
  unfold balance
  split
  · rename_i hempty
    rw [List.isEmpty_iff.mp hempty, partitioned_nil]
  · rw [List.partition_eq_filter_filter]
    rfl

theorem apply_preferringParts (preferences : List (List String)) (commons : Commons γ)
    (service : String) (endpoints : List Endpoint) :
    apply (preferringParts γ preferences) commons service endpoints =
      { state := preferringParts γ preferences, commons,
        endpoints := preferring preferences endpoints } := by
  induction preferences generalizing endpoints with
  | nil => rfl
  | cons tags later ih =>
      have hfirst := balance_preferTags tags (fresh γ _) commons service endpoints
      have hall := apply_cons (p := ⟨preferTags tags, _⟩) hfirst rfl (preferringParts γ later)
      rw [ih] at hall
      exact hall

theorem balance_preferring {s : Strategy} (hs : s.parts = preferences.map preferTags)
    (state : s.State γ) (commons : Commons γ) (service : String) (endpoints : List Endpoint) :
    (s.balance state commons service endpoints).failed = false ∧
      (s.balance state commons service endpoints).endpoints = preferring preferences endpoints := by
  have hheld := eq_preferringParts ((s.map_fst_held state).trans hs)
  have hparts := held_balance s state commons service endpoints
  rw [hheld, apply_preferringParts] at hparts
  exact ⟨(congrArg Balanced.failed hparts).symm, (congrArg Balanced.endpoints hparts).symm⟩

/-- **Preferences compose.** Whatever sequence comes down to these preferences, it leaves the
endpoints in their order, the last preference deciding first, and those that agree on all of
them as they stood. A second call leaves the list as it is. A sequence comes down to what its
members come down to, made from a list of them or built up one by one. -/
theorem preferences_compose (s : Strategy) (preferences : List (List String))
    (hs : s.parts = preferences.map preferTags) (state : s.State γ) (commons : Commons γ)
    (service : String) (endpoints : List Endpoint) :
    (∀ members : List Strategy, (sequence members).parts = members.flatMap parts ∧
      (members.foldl andThen s).parts = s.parts ++ members.flatMap parts) ∧
    let r := s.balance state commons service endpoints
    r.failed = false ∧ r.endpoints.Pairwise (Precedes preferences) ∧
      (∀ e, r.endpoints.filter (agree preferences e) = endpoints.filter (agree preferences e)) ∧
      ∀ (state : s.State γ) (commons : Commons γ) (service : String),
        (s.balance state commons service r.endpoints).endpoints = r.endpoints := by
  refine ⟨fun members => ⟨parts_sequence members, parts_foldl s members⟩, ?_⟩
  intro r
  obtain ⟨hsucceeds, hr⟩ := balance_preferring hs state commons service endpoints
  have hsorted := isStableSort_preferring preferences endpoints
  rw [← hr] at hsorted
  refine ⟨hsucceeds, ?_, ?_, ?_⟩
  · exact hsorted.ascending.imp precedes_of_not_outranks
  · intro e
    have hclass : alike (outranks preferences) e = agree preferences e :=
      funext (alike_outranks preferences e)
    rw [← hclass]
    exact hsorted.stable e
  · -- both the list and what the second call leaves are the list in order
    intro state' commons' service'
    rw [(balance_preferring hs state' commons' service' r.endpoints).2]
    exact (isStableSort_preferring preferences r.endpoints).unique (outranks_self preferences)
      hsorted.again

/-- Sequences within sequences, one of them without members and one preference without tags. -/
def layered : Strategy :=
  andThen (andThen identity (preferTags ["canary", "west"]))
    (sequence [sequence [], preferTags [], sequence [preferTags ["west", "east", "west"]]])

/-- Endpoints that occur twice, and one that carries a tag twice. -/
def crowd : List Endpoint :=
  [{ id := "a", addr := "10.0.0.1:80" },
   { id := "b", addr := "10.0.0.2:80", tags := ["east"] },
   { id := "c", addr := "10.0.0.3:80", tags := ["canary"] },
   { id := "a", addr := "10.0.0.1:80" },
   { id := "d", addr := "10.0.0.4:80", tags := ["west", "v2", "west"] },
   { id := "b", addr := "10.0.0.2:80", tags := ["east"] }]

/-- The last preference separates `d` and `b` from the others, and the first one each group. -/
theorem preferences_compose_of_layered :
    let preferences := [["canary", "west"], [], ["west", "east", "west"]]
    let r := layered.balance (layered.fresh Draws) rigged "orders" crowd
    layered.parts = preferences.map preferTags ∧ r.failed = false ∧
      r.endpoints.Pairwise (Precedes preferences) ∧
      (∀ e, r.endpoints.filter (agree preferences e) = crowd.filter (agree preferences e)) ∧
      (∀ (state : layered.State Draws) (commons : Commons Draws) (service : String),
        (layered.balance state commons service r.endpoints).endpoints = r.endpoints) ∧
      r.endpoints.map (·.id) = ["d", "b", "b", "c", "a", "a"] := by
  intro preferences r
  have hparts : layered.parts = preferences.map preferTags := rfl
  obtain ⟨-, hsucceeds, hordered, hstable, hagain⟩ :=
    preferences_compose layered preferences hparts (layered.fresh Draws) rigged "orders" crowd
  exact ⟨hparts, hsucceeds, hordered, hstable, hagain, by decide +kernel⟩

end Strategy

end Tenure
