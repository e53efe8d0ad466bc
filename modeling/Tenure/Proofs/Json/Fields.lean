import Mathlib.Data.List.Nodup
import Tenure.Json.Node

/-!
# Objects read field by field

An object is read member by member into a draft, which has a place for every field. A member that
has the name of a field fills its place, unless this is filled already; a member of another name is
passed over, or refused.

* `Fields` — the fields, their names and readers, and how the draft keeps them: what reading is for
  all kinds of records;
* `Fields.take_put`, `Fields.takeAll_put` — what a draft holds in one field makes no difference to
  the members of other names (step and run);
* `Fields.Gathered` — what a draft holds after an object, without reference to the order of its
  members; `Fields.takeAll_eq_ok_iff` — that it holds this (the run);
* `Fields.takeAll_reordered`, `Fields.takeAll_values` — so neither the order makes a difference, nor
  members that are passed over.
-/

namespace Tenure.Json

/-! ## Objects -/

/-- A complete object with these members. -/
def Node.ofMembers (members : List (String × Node)) : Node :=
  .object (members.map fun m => (some m.1, m.2)) true none

theorem Value.memberNodes_eq (members : List (String × Value)) :
    Value.memberNodes members = members.map fun m => (some m.1, m.2.node) := by
  induction members with
  | nil => rfl
  | cons m members ih => rw [Value.memberNodes, ih, List.map_cons]

theorem Value.node_object (members : List (String × Value)) :
    (Value.object members).node = .ofMembers (members.map fun m => (m.1, m.2.node)) := by
  rw [Value.node, memberNodes_eq, Node.ofMembers, List.map_map]
  rfl

/-- The members of a complete object, folded into a state. -/
theorem Node.eachMember_named {σ : Type} (step : σ → String → Node → Decoded σ) (start : σ)
    (members : List (String × Node)) :
    eachMember step start (members.map fun m => (some m.1, m.2)) true =
      members.foldlM (fun s m => step s m.1 m.2) start := by
  rw [eachMember, List.foldlM_map]
  exact bind_pure _

/-- A value that the text does not break off, down to its innermost parts. -/
inductive Node.IsWhole : Node → Prop
  | null : IsWhole .null
  | bool (b : Bool) : IsWhole (.bool b)
  | number (l : Literal) : IsWhole (.number l)
  | text (content : Option String) : IsWhole (.text content)
  | array {items : List Node} (hitems : ∀ n ∈ items, IsWhole n) : IsWhole (.array items true)
  | object {members : List (Option String × Node)} (hmembers : ∀ m ∈ members, IsWhole m.2) :
      IsWhole (.object members true none)

theorem Node.IsWhole.skip {n : Node} (h : n.IsWhole) : n.skip = .ok () := by
  cases h <;> rfl

mutual

theorem Value.isWhole_node : ∀ v : Value, v.node.IsWhole
  | .null => .null
  | .bool b => .bool b
  | .number n => .number n.literal
  | .text s => .text (some s)
  | .array items => .array (Value.isWhole_nodes items)
  | .object members => .object (Value.isWhole_memberNodes members)

theorem Value.isWhole_nodes : ∀ items : List Value, ∀ n ∈ Value.nodes items, n.IsWhole
  | [] => List.forall_mem_nil _
  | v :: vs => List.forall_mem_cons.mpr ⟨Value.isWhole_node v, Value.isWhole_nodes vs⟩

theorem Value.isWhole_memberNodes : ∀ members : List (String × Value),
    ∀ m ∈ Value.memberNodes members, m.2.IsWhole
  | [] => List.forall_mem_nil _
  | (_, v) :: rest =>
      List.forall_mem_cons.mpr ⟨Value.isWhole_node v, Value.isWhole_memberNodes rest⟩

end

/-! ## Fields -/

/-- How a draft `δ` is filled from the members of an object, `φ` being the fields and `Holds` what
they hold. -/
structure Fields (φ : Type) (Holds : φ → Type) (δ : Type) where
  /-- The name of the member that gives a field. -/
  title : φ → String
  /-- How the value of a field is read. -/
  read : (f : φ) → Node → Decoded (Holds f)
  /-- What a member of another name has to meet. -/
  pass : String → Node → Decoded Unit
  /-- Takes in one member. -/
  take : δ → String → Node → Decoded δ
  /-- What a draft holds in a field. -/
  get : δ → (f : φ) → Option (Holds f)
  /-- A draft with one field filled anew. -/
  put : δ → (f : φ) → Option (Holds f) → δ
  title_injective : ∀ {f g : φ}, title f = title g → f = g
  ext_get : ∀ {d d' : δ}, (∀ f, get d f = get d' f) → d = d'
  get_put_self : ∀ (d : δ) {f : φ} (v : Option (Holds f)), get (put d f v) f = v
  get_put_of_ne : ∀ (d : δ) {f g : φ} (v : Option (Holds f)), g ≠ f → get (put d f v) g = get d g
  take_title : ∀ (d : δ) (f : φ) (n : Node),
    take d (title f) n = (do return put d f (← fillOnce (title f) (get d f) (read f n)))
  take_unknown : ∀ {name : String}, (∀ f, title f ≠ name) → ∀ (d : δ) (n : Node),
    take d name n = (pass name n).map fun _ => d

namespace Fields

variable {φ δ : Type} {Holds : φ → Type} (F : Fields φ Holds δ) {d d' : δ} {f g : φ}

theorem put_get (d : δ) (f : φ) : F.put d f (F.get d f) = d := by
  refine F.ext_get fun g => ?_
  by_cases h : g = f
  · subst h
    rw [F.get_put_self]
  · rw [F.get_put_of_ne d _ h]

theorem put_comm (d : δ) (v : Option (Holds f)) (w : Option (Holds g)) (h : g ≠ f) :
    F.put (F.put d f v) g w = F.put (F.put d g w) f v := by
  refine F.ext_get fun k => ?_
  by_cases hg : k = g
  · subst hg
    rw [F.get_put_self, F.get_put_of_ne _ _ h, F.get_put_self]
  · by_cases hf : k = f
    · subst hf
      rw [F.get_put_of_ne _ _ hg, F.get_put_self, F.get_put_self]
    · rw [F.get_put_of_ne _ _ hg, F.get_put_of_ne _ _ hf, F.get_put_of_ne _ _ hf,
        F.get_put_of_ne _ _ hg]

/-! ## One member -/

theorem take_title_of_none (n : Node) (hnone : F.get d f = none) :
    F.take d (F.title f) n = (F.read f n).map fun v => F.put d f (some v) := by
  rw [F.take_title, hnone]
  cases F.read f n <;> rfl

theorem take_put {name : String} (h : F.title f ≠ name) (v : Option (Holds f)) (n : Node) :
    F.take (F.put d f v) name n = (F.take d name n).map (F.put · f v) := by
  by_cases hknown : ∃ g, F.title g = name
  · obtain ⟨g, rfl⟩ := hknown
    have hne : g ≠ f := fun heq => h (congrArg F.title heq.symm)
    rw [F.take_title, F.take_title, F.get_put_of_ne d v hne]
    cases fillOnce (F.title g) (F.get d g) (F.read g n) with
    | error e => rfl
    | ok w => exact congrArg Except.ok (F.put_comm d v w hne)
  · rw [F.take_unknown (not_exists.mp hknown), F.take_unknown (not_exists.mp hknown)]
    cases F.pass name n <;> rfl

/-! ## All members -/

/-- Takes in the members of an object one after the other. -/
def takeAll (d : δ) (members : List (String × Node)) : Decoded δ :=
  members.foldlM (fun d m => F.take d m.1 m.2) d

theorem eachMember_take (d : δ) (members : List (String × Node)) :
    Node.eachMember F.take d (members.map fun m => (some m.1, m.2)) true = F.takeAll d members :=
  Node.eachMember_named F.take d members

theorem takeAll_cons (m : String × Node) (members : List (String × Node)) :
    F.takeAll d (m :: members) = F.take d m.1 m.2 >>= fun d => F.takeAll d members :=
  List.foldlM_cons

/-- The member of a field that is still to be filled. -/
theorem takeAll_title {n : Node} {members : List (String × Node)} (hnone : F.get d f = none) :
    F.takeAll d ((F.title f, n) :: members) =
      F.read f n >>= fun v => F.takeAll (F.put d f (some v)) members := by
  rw [takeAll_cons, F.take_title_of_none n hnone]
  cases F.read f n <;> rfl

theorem takeAll_append (before after : List (String × Node)) :
    F.takeAll d (before ++ after) = F.takeAll d before >>= fun d => F.takeAll d after :=
  List.foldlM_append

theorem takeAll_put {members : List (String × Node)} (h : F.title f ∉ members.map (·.1))
    (v : Option (Holds f)) :
    F.takeAll (F.put d f v) members = (F.takeAll d members).map (F.put · f v) := by
  induction members generalizing d with
  | nil => rfl
  | cons m members ih =>
      obtain ⟨hne, hrest⟩ := not_or.mp (mt List.mem_cons.mpr h)
      rw [takeAll_cons, takeAll_cons, F.take_put hne]
      cases F.take d m.1 m.2 with
      | error e => rfl
      | ok d' => exact ih hrest

theorem get_of_takeAll {members : List (String × Node)} (h : F.title f ∉ members.map (·.1))
    (htaken : F.takeAll d members = .ok d') : F.get d' f = F.get d f := by
  have hframe : F.takeAll (F.put d f (F.get d f)) members =
      (F.takeAll d members).map (F.put · f (F.get d f)) := F.takeAll_put h _
  rw [put_get, htaken] at hframe
  rw [Except.ok.inj hframe, F.get_put_self]

/-! ## What members give -/

/-- That a draft holds what a member gives, if its name is that of a field, and that it can be
passed over otherwise. -/
structure Fits (d : δ) (name : String) (n : Node) : Prop where
  known : ∀ f, F.title f = name → ∃ v, F.read f n = .ok v ∧ F.get d f = some v
  unknown : (∀ f, F.title f ≠ name) → F.pass name n = .ok ()

theorem fits_title {n : Node} :
    F.Fits d (F.title f) n ↔ ∃ v, F.read f n = .ok v ∧ F.get d f = some v := by
  refine ⟨fun h => h.known f rfl, fun h => ⟨fun g heq => ?_, fun hne => absurd rfl (hne f)⟩⟩
  obtain rfl := F.title_injective heq
  exact h

theorem fits_unknown {name : String} {n : Node} (h : ∀ f, F.title f ≠ name) :
    F.Fits d name n ↔ F.pass name n = .ok () :=
  ⟨fun hfits => hfits.unknown h, fun hpass => ⟨fun f heq => absurd heq (h f), fun _ => hpass⟩⟩

/-- That a draft is another one with what the members of an object give. -/
structure Gathered (d : δ) (members : List (String × Node)) (d' : δ) : Prop where
  fits : ∀ m ∈ members, F.Fits d' m.1 m.2
  kept : ∀ f, F.title f ∉ members.map (·.1) → F.get d' f = F.get d f

variable {F}

theorem Gathered.get_eq {members : List (String × Node)} {n : Node} {v : Holds f}
    (h : F.Gathered d members d') (hmem : (F.title f, n) ∈ members)
    (hread : F.read f n = .ok v) : F.get d' f = some v := by
  obtain ⟨w, hw, hheld⟩ := F.fits_title.mp (h.fits _ hmem)
  obtain rfl := Except.ok.inj (hread.symm.trans hw)
  exact hheld

theorem gathered_nil : F.Gathered d [] d' ↔ d = d' := by
  refine ⟨fun h => F.ext_get fun f => (h.kept f List.not_mem_nil).symm, ?_⟩
  rintro rfl
  exact ⟨List.forall_mem_nil _, fun _ _ => rfl⟩

section Cons

variable {members : List (String × Node)} {name : String} {n : Node}

theorem gathered_title {v : Holds f} (hread : F.read f n = .ok v)
    (hgone : F.title f ∉ members.map (·.1)) :
    F.Gathered d ((F.title f, n) :: members) d' ↔ F.Gathered (F.put d f (some v)) members d' := by
  constructor
  · intro h
    refine ⟨(List.forall_mem_cons.mp h.fits).2, fun g hg => ?_⟩
    by_cases heq : g = f
    · obtain rfl := heq
      rw [h.get_eq List.mem_cons_self hread, F.get_put_self]
    · refine (h.kept g fun hmem => ?_).trans (F.get_put_of_ne _ _ heq).symm
      rcases List.mem_cons.mp hmem with hsame | hmem
      · exact heq (F.title_injective hsame)
      · exact hg hmem
  · rintro ⟨hfits, hkept⟩
    have hheld : F.get d' f = some v := (hkept f hgone).trans (F.get_put_self _ _)
    refine ⟨List.forall_mem_cons.mpr ⟨F.fits_title.mpr ⟨v, hread, hheld⟩, hfits⟩, fun g hg => ?_⟩
    obtain ⟨hne, hg⟩ := not_or.mp (mt List.mem_cons.mpr hg)
    exact (hkept g hg).trans (F.get_put_of_ne _ _ fun heq => hne (congrArg F.title heq))

theorem gathered_unknown (hunknown : ∀ f, F.title f ≠ name) (hpass : F.pass name n = .ok ()) :
    F.Gathered d ((name, n) :: members) d' ↔ F.Gathered d members d' := by
  have hmem (f : φ) : F.title f ∈ ((name, n) :: members).map (·.1) ↔
      F.title f ∈ members.map (·.1) := by
    rw [List.map_cons, List.mem_cons, or_iff_right (hunknown f)]
  constructor
  · rintro ⟨hfits, hkept⟩
    exact ⟨(List.forall_mem_cons.mp hfits).2, fun f hf => hkept f (mt (hmem f).mp hf)⟩
  · rintro ⟨hfits, hkept⟩
    exact ⟨List.forall_mem_cons.mpr ⟨(F.fits_unknown hunknown).mpr hpass, hfits⟩,
      fun f hf => hkept f (mt (hmem f).mpr hf)⟩

end Cons

/-- Members that give no field twice, and none that is filled already, are taken in as what they
give, whatever their order. -/
theorem takeAll_eq_ok_iff {members : List (String × Node)}
    (honce : ∀ f, (members.map (·.1)).count (F.title f) ≤ 1)
    (hnone : ∀ f, F.title f ∈ members.map (·.1) → F.get d f = none) :
    F.takeAll d members = .ok d' ↔ F.Gathered d members d' := by
  -- a member of a known name is taken into another draft, so the draft is not fixed
  induction members generalizing d with
  | nil => exact (Except.ok.injEq d d').to_iff.trans gathered_nil.symm
  | cons m members ih =>
      obtain ⟨name, n⟩ := m
      have hlater : ∀ f, (members.map (·.1)).count (F.title f) ≤ 1 := fun f =>
        Nat.le_trans (List.count_le_count_cons ..) (honce f)
      by_cases hknown : ∃ f, F.title f = name
      · obtain ⟨f, rfl⟩ := hknown
        have hgone : F.title f ∉ members.map (·.1) := by
          have hcount := honce f
          rw [List.map_cons, List.count_cons_self] at hcount
          exact List.count_eq_zero.mp (by omega)
        rw [F.takeAll_title (hnone f List.mem_cons_self)]
        cases hread : F.read f n with
        | error e =>
            refine ⟨nofun, fun h => ?_⟩
            obtain ⟨v, hv, -⟩ := F.fits_title.mp (List.forall_mem_cons.mp h.fits).1
            cases hread.symm.trans hv
        | ok v =>
            refine (ih hlater fun g hmem => ?_).trans (gathered_title hread hgone).symm
            have hne : g ≠ f := fun heq => hgone (heq ▸ hmem)
            rw [F.get_put_of_ne _ _ hne, hnone g (List.mem_cons_of_mem _ hmem)]
      · have hunknown := not_exists.mp hknown
        rw [takeAll_cons, F.take_unknown hunknown]
        cases hpass : F.pass name n with
        | error e =>
            refine ⟨nofun, fun h => ?_⟩
            cases hpass.symm.trans ((List.forall_mem_cons.mp h.fits).1.unknown hunknown)
        | ok =>
            exact (ih hlater fun f hf => hnone f (List.mem_cons_of_mem _ hf)).trans
              (gathered_unknown hunknown hpass).symm

/-! ## Order, and members that are passed over -/

section Order

variable {members extra order : List (String × Node)}

theorem title_notMem (hextra : ∀ m ∈ extra, (∀ f, F.title f ≠ m.1) ∧ F.pass m.1 m.2 = .ok ())
    (f : φ) : F.title f ∉ extra.map (·.1) := by
  intro hmem
  obtain ⟨m, hm, heq⟩ := List.mem_map.mp hmem
  exact (hextra m hm).1 f heq.symm

theorem gathered_iff_of_perm
    (hextra : ∀ m ∈ extra, (∀ f, F.title f ≠ m.1) ∧ F.pass m.1 m.2 = .ok ())
    (horder : order.Perm (members ++ extra)) :
    F.Gathered d order d' ↔ F.Gathered d members d' := by
  have hmem (m : String × Node) : m ∈ order ↔ m ∈ members ∨ m ∈ extra :=
    horder.mem_iff.trans List.mem_append
  have hnames (f : φ) : F.title f ∈ order.map (·.1) ↔ F.title f ∈ members.map (·.1) := by
    rw [(horder.map (·.1)).mem_iff, List.map_append, List.mem_append,
      or_iff_left (title_notMem hextra f)]
  constructor
  · rintro ⟨hfits, hkept⟩
    exact ⟨fun m hm => hfits m ((hmem m).mpr (.inl hm)), fun f hf => hkept f (mt (hnames f).mp hf)⟩
  · rintro ⟨hfits, hkept⟩
    refine ⟨fun m hm => ?_, fun f hf => hkept f (mt (hnames f).mpr hf)⟩
    rcases (hmem m).mp hm with hm | hm
    · exact hfits m hm
    · exact (F.fits_unknown (hextra m hm).1).mpr (hextra m hm).2

theorem count_le_one (hnodup : (members.map (·.1)).Nodup)
    (hextra : ∀ m ∈ extra, (∀ f, F.title f ≠ m.1) ∧ F.pass m.1 m.2 = .ok ())
    (horder : order.Perm (members ++ extra)) (f : φ) :
    (order.map (·.1)).count (F.title f) ≤ 1 := by
  have hnone : (extra.map (·.1)).count (F.title f) = 0 :=
    List.count_eq_zero.mpr (title_notMem hextra f)
  rw [(horder.map (·.1)).count_eq, List.map_append, List.count_append, hnone, Nat.add_zero]
  exact List.nodup_iff_count.mp hnodup (F.title f)

theorem takeAll_reordered (hnone : ∀ f, F.get d f = none) (hnodup : (members.map (·.1)).Nodup)
    (hextra : ∀ m ∈ extra, (∀ f, F.title f ≠ m.1) ∧ F.pass m.1 m.2 = .ok ())
    (horder : order.Perm (members ++ extra)) :
    F.takeAll d order = .ok d' ↔ F.Gathered d members d' :=
  (takeAll_eq_ok_iff (count_le_one hnodup hextra horder) fun f _ => hnone f).trans
    (gathered_iff_of_perm hextra horder)

end Order

/-- Complete values in any order, and others that are passed over: what a draft holds that they all
fit, and that holds nothing else. -/
theorem takeAll_values {members extra order : List (String × Value)} (hnone : ∀ f, F.get d f = none)
    (hnodup : (members.map (·.1)).Nodup)
    (hextra : ∀ m ∈ extra, (∀ f, F.title f ≠ m.1) ∧ F.pass m.1 m.2.node = .ok ())
    (horder : order.Perm (members ++ extra)) (hfits : ∀ m ∈ members, F.Fits d' m.1 m.2.node)
    (hrest : ∀ f, F.title f ∉ members.map (·.1) → F.get d' f = none) :
    F.takeAll d (order.map fun m => (m.1, m.2.node)) = .ok d' := by
  have hnames (l : List (String × Value)) :
      (l.map fun m => (m.1, m.2.node)).map (·.1) = l.map (·.1) := List.map_map
  have hnodes := horder.map fun m => (m.1, m.2.node)
  rw [List.map_append] at hnodes
  refine (takeAll_reordered hnone (by rwa [hnames]) (List.forall_mem_map.mpr hextra) hnodes).mpr
    ⟨List.forall_mem_map.mpr hfits, fun f hf => ?_⟩
  rw [hnames] at hf
  rw [hrest f hf, hnone]

end Fields

end Tenure.Json
