import Tenure.Proofs.Json.Fields
import Tenure.Proofs.Numeric.Shortest
import Tenure.Session.Info

/-!
# Members of a report

Agents report sessions with different sets of members, in whatever order they like. A report is
decided by what its members of known names say: the others are passed over, a missing one has a
value that could as well be written out, and an array is an object whose names are left out.

* `SessionInfo.Field` lists the fields, and `SessionInfo.fields` says how a draft is filled from
  them; so `ofNode_reordered` reads members in any order, and with others among them;
* `ofNode_omitted` leaves out a member that is `Field.Neutral`: errors stay the same, too;
* `known_members_decide` puts them together with `ofNode_array`.
-/

namespace Tenure

open Numeric Json

/-! ## No time at all -/

/-- The values that stand for no time at all: null, zero however it is written, and a blank text. -/
inductive Duration.IsNoTime : Node → Prop
  | null : IsNoTime .null
  | zero {l : Literal} {k : Number} {negative : Bool} (hvalue : l.value = some k)
      (hzero : numberOfSeconds k = .finite negative 0) : IsNoTime (.number l)
  | blank {s : String} (h : Text.isBlankText s = true) : IsNoTime (.text (some s))

theorem Duration.ofNode_noTime (remaining : Nat) {n : Node} (h : IsNoTime n) :
    ofNode remaining n = .ok zero := by
  cases h with
  | null => cases remaining <;> rfl
  | @zero l k negative hvalue hzero =>
      have hread : (Node.number l).asValue remaining = .ok (.number k) := by
        rw [Node.asValue, hvalue]
      have hseconds : ofSeconds (numberOfSeconds k) = .ok zero := by
        have hround := roundHalfEven_mul 0 unitsPerOne_pos
        rw [Nat.zero_mul] at hround
        rw [hzero, ofSeconds, Nat.zero_mul, hround]
        cases negative <;> rfl
      unfold ofNode
      rw [hread]
      exact hseconds
  | @blank s h =>
      have hread : (Node.text (some s)).asValue remaining = .ok (.text s) := by
        rw [Node.asValue]
      unfold ofNode
      rw [hread]
      exact if_pos h

namespace SessionInfo

/-! ## Fields -/

/-- The fields of a report, in the order of its array form. -/
inductive Field
  | id
  | name
  | node
  | behavior
  | lockDelay
  | ttl
  | createIndex
deriving DecidableEq

namespace Field

/-- The name of the member that gives a field. -/
def title : Field → String
  | id => "ID"
  | name => "Name"
  | node => "Node"
  | behavior => "Behavior"
  | lockDelay => "LockDelay"
  | ttl => "TTL"
  | createIndex => "CreateIndex"

/-- Every field. -/
def all : List Field := [id, name, node, behavior, lockDelay, ttl, createIndex]

/-- What a field holds. -/
def Holds : Field → Type
  | id | name | node => String
  | behavior => Behavior
  | lockDelay | ttl => Duration
  | createIndex => Nat

/-- How the value of a field is read. -/
def read (remaining : Nat) : (f : Field) → Node → Decoded f.Holds
  | id | name | node => Node.asText
  | behavior => Behavior.ofNode remaining
  | lockDelay | ttl => Duration.ofNode remaining
  | createIndex => Node.asNatural 64

/-- What a report says of a field that it does not give. -/
def assumed : (f : Field) → Option f.Holds
  | id => none
  | name | node => some ""
  | behavior => some Behavior.release
  | lockDelay | ttl => some Duration.zero
  | createIndex => some (0 : Nat)

theorem title_injective {f g : Field} (h : f.title = g.title) : f = g := by
  cases f <;> cases g <;> first | rfl | exact absurd h (by decide)

end Field

namespace Draft

/-- What a draft holds in a field. -/
def get (d : Draft) : (f : Field) → Option f.Holds
  | .id => d.id
  | .name => d.name
  | .node => d.node
  | .behavior => d.behavior
  | .lockDelay => d.lockDelay
  | .ttl => d.ttl
  | .createIndex => d.createIndex

/-- A draft with one field filled anew. -/
def put (d : Draft) : (f : Field) → Option f.Holds → Draft
  | .id, v => { d with id := v }
  | .name, v => { d with name := v }
  | .node, v => { d with node := v }
  | .behavior, v => { d with behavior := v }
  | .lockDelay, v => { d with lockDelay := v }
  | .ttl, v => { d with ttl := v }
  | .createIndex, v => { d with createIndex := v }

variable {remaining : Nat} {d d' : Draft} {f g : Field}

@[simp] theorem get_put_self (v : Option f.Holds) : (d.put f v).get f = v := by
  cases f <;> rfl

theorem get_put_of_ne (v : Option f.Holds) (h : g ≠ f) : (d.put f v).get g = d.get g := by
  cases f <;> cases g <;> first | rfl | exact absurd rfl h

theorem get_empty (f : Field) : ({} : Draft).get f = none := by
  cases f <;> rfl

theorem ext_get (h : ∀ f, d.get f = d'.get f) : d = d' := by
  obtain ⟨id, name, node, behavior, lockDelay, ttl, createIndex⟩ := d
  obtain ⟨id', name', node', behavior', lockDelay', ttl', createIndex'⟩ := d'
  obtain rfl : id = id' := h .id
  obtain rfl : name = name' := h .name
  obtain rfl : node = node' := h .node
  obtain rfl : behavior = behavior' := h .behavior
  obtain rfl : lockDelay = lockDelay' := h .lockDelay
  obtain rfl : ttl = ttl' := h .ttl
  obtain rfl : createIndex = createIndex' := h .createIndex
  rfl

/-! ## One member -/

/-- A member of a known name fills its field. -/
theorem take_title (d : Draft) (f : Field) (n : Node) :
    Draft.take remaining d f.title n =
      (do return d.put f (← fillOnce f.title (d.get f) (f.read remaining n))) := by
  cases f <;> rfl

/-- A member of another name is passed over. -/
theorem take_unknown {name : String} (h : ∀ f : Field, f.title ≠ name) (d : Draft) (n : Node) :
    Draft.take remaining d name n = n.skip.map fun _ => d := by
  have hskip : Draft.take remaining d name n = (do n.skip; return d) := by
    unfold Draft.take
    split
    · exact absurd rfl (h .id)
    · exact absurd rfl (h .name)
    · exact absurd rfl (h .node)
    · exact absurd rfl (h .behavior)
    · exact absurd rfl (h .lockDelay)
    · exact absurd rfl (h .ttl)
    · exact absurd rfl (h .createIndex)
    · rfl
  rw [hskip]
  cases n.skip <;> rfl

/-- A draft is finished without a field as with what is assumed of it. -/
theorem finish_put {v : f.Holds} (hassumed : f.assumed = some v) (hnone : d.get f = none) :
    (d.put f (some v)).finish = d.finish := by
  obtain ⟨id, name, node, behavior, lockDelay, ttl, createIndex⟩ := d
  cases f <;> cases hassumed <;> cases hnone <;> rfl

/-- A duration that a draft does not hold is zero in the report. -/
theorem durations_finish {x : SessionInfo} (h : d.finish = .ok x) :
    x.lockDelay = d.lockDelay.getD .zero ∧ x.ttl = d.ttl.getD .zero := by
  unfold finish at h
  split at h
  · cases h
  · cases h
    exact ⟨rfl, rfl⟩

end Draft

/-- How a draft of a report is filled: members of unknown names are passed over. -/
def fields (remaining : Nat) : Fields Field Field.Holds Draft where
  title := Field.title
  read := Field.read remaining
  pass _ n := n.skip
  take := Draft.take remaining
  get := Draft.get
  put := Draft.put
  title_injective := Field.title_injective
  ext_get := Draft.ext_get
  get_put_self _ _ := Draft.get_put_self
  get_put_of_ne _ _ _ := Draft.get_put_of_ne
  take_title := Draft.take_title
  take_unknown := Draft.take_unknown

/-- The member of a field that is still to be filled. -/
theorem takeAll_given {r : Nat} {d : Draft} {f : Field} {n : Node} {members : List (String × Node)}
    (hnone : d.get f = none) :
    (fields r).takeAll d ((f.title, n) :: members) =
      f.read r n >>= fun v => (fields r).takeAll (d.put f (some v)) members :=
  (fields r).takeAll_title hnone

/-! ## Reports -/

variable {remaining : Nat} {x : SessionInfo}

theorem ofNode_ofMembers (remaining : Nat) (members : List (String × Node)) :
    ofNode remaining (.ofMembers members) =
      Node.opening remaining fun r => (fields r).takeAll {} members >>= Draft.finish := by
  unfold ofNode Node.ofMembers
  simp only [← Fields.eachMember_take]
  rfl

/-- An object that gives no field twice is read as the draft that its members gather to. -/
theorem ofNode_ofMembers_eq_ok_iff {members : List (String × Node)}
    (honce : ∀ f : Field, (members.map (·.1)).count f.title ≤ 1) :
    ofNode remaining (.ofMembers members) = .ok x ↔
      ∃ r d, remaining = r + 1 ∧ (fields r).Gathered {} members d ∧ d.finish = .ok x := by
  rw [ofNode_ofMembers]
  cases remaining with
  | zero =>
      refine ⟨nofun, fun ⟨r, d, hr, _⟩ => ?_⟩
      cases hr
  | succ r =>
      have hgathered (d : Draft) : (fields r).takeAll {} members = .ok d ↔
          (fields r).Gathered {} members d :=
        Fields.takeAll_eq_ok_iff honce fun f _ => Draft.get_empty f
      show ((fields r).takeAll {} members >>= Draft.finish) = .ok x ↔ _
      constructor
      · intro h
        cases htaken : (fields r).takeAll {} members with
        | error e =>
            rw [htaken] at h
            cases h
        | ok d =>
            rw [htaken] at h
            exact ⟨r, d, rfl, (hgathered d).mp htaken, h⟩
      · rintro ⟨r', d, hr, hd, hfinish⟩
        obtain rfl := Nat.succ.inj hr
        rw [(hgathered d).mpr hd]
        exact hfinish

theorem ofNode_reordered {members extra order : List (String × Node)}
    (hnodup : (members.map (·.1)).Nodup)
    (hextra : ∀ m ∈ extra, (∀ f : Field, f.title ≠ m.1) ∧ m.2.IsWhole)
    (horder : order.Perm (members ++ extra)) :
    ofNode remaining (.ofMembers order) = .ok x ↔
      ofNode remaining (.ofMembers members) = .ok x := by
  have hpassed (r : Nat) : ∀ m ∈ extra,
      (∀ f, (fields r).title f ≠ m.1) ∧ (fields r).pass m.1 m.2 = .ok () :=
    fun m hm => ⟨(hextra m hm).1, (hextra m hm).2.skip⟩
  rw [ofNode_ofMembers_eq_ok_iff (Fields.count_le_one hnodup (hpassed remaining) horder),
    ofNode_ofMembers_eq_ok_iff fun f => List.nodup_iff_count.mp hnodup f.title]
  simp only [Fields.gathered_iff_of_perm (hpassed _) horder]

/-! ## What is assumed -/

/-- A value that says no more of a field than leaving it out does. -/
inductive Field.Neutral : Field → Node → Prop
  | name : Neutral .name (.text (some ""))
  | node : Neutral .node (.text (some ""))
  | behavior : Neutral .behavior (.text (some "release"))
  | lockDelay {n : Node} (h : Duration.IsNoTime n) : Neutral .lockDelay n
  | ttl {n : Node} (h : Duration.IsNoTime n) : Neutral .ttl n
  | createIndex {l : Literal} (h : l.value = some (.natural 0)) : Neutral .createIndex (.number l)

theorem Field.Neutral.read {f : Field} {n : Node} (h : f.Neutral n) (remaining : Nat) :
    ∃ v, f.assumed = some v ∧ f.read remaining n = .ok v := by
  cases h with
  | name | node | behavior => exact ⟨_, rfl, rfl⟩
  | lockDelay hnone | ttl hnone => exact ⟨_, rfl, Duration.ofNode_noTime remaining hnone⟩
  | @createIndex l hzero =>
      have hread : Node.asNatural 64 (.number l) = .ok 0 := by
        unfold Node.asNatural
        dsimp only
        rw [hzero]
        rfl
      exact ⟨_, rfl, hread⟩

/-- A member that says nothing of its field makes no difference, not even to an error. -/
theorem ofNode_omitted {f : Field} {n : Node} {before after : List (String × Node)}
    (hneutral : f.Neutral n) (hbefore : f.title ∉ before.map (·.1))
    (hafter : f.title ∉ after.map (·.1)) :
    ofNode remaining (.ofMembers (before ++ (f.title, n) :: after)) =
      ofNode remaining (.ofMembers (before ++ after)) := by
  rw [ofNode_ofMembers, ofNode_ofMembers]
  congr 1
  funext r
  obtain ⟨v, hassumed, hread⟩ := hneutral.read r
  rw [Fields.takeAll_append, Fields.takeAll_append]
  -- the members before say nothing of the field, so it is still to be filled, and those behind are
  -- taken in alike with it and without it
  cases htaken : (fields r).takeAll {} before with
  | error e => rfl
  | ok d =>
      have hnone : d.get f = none :=
        ((fields r).get_of_takeAll hbefore htaken).trans (Draft.get_empty f)
      show (fields r).takeAll d ((f.title, n) :: after) >>= Draft.finish =
        (fields r).takeAll d after >>= Draft.finish
      rw [takeAll_given hnone, hread]
      show (fields r).takeAll (d.put f (some v)) after >>= Draft.finish = _
      have hframe : (fields r).takeAll (d.put f (some v)) after = _ :=
        (fields r).takeAll_put hafter (some v)
      rw [hframe]
      cases hlater : (fields r).takeAll d after with
      | error e => rfl
      | ok d' =>
          exact Draft.finish_put hassumed (((fields r).get_of_takeAll hafter hlater).trans hnone)

/-- A duration that is given as no time at all is zero in the report. -/
theorem durations_of_noTime {members : List (String × Node)} {n : Node}
    (hnodup : (members.map (·.1)).Nodup) (hreport : ofNode remaining (.ofMembers members) = .ok x)
    (hnone : Duration.IsNoTime n) :
    (("LockDelay", n) ∈ members → x.lockDelay = .zero) ∧
      (("TTL", n) ∈ members → x.ttl = .zero) := by
  obtain ⟨r, d, -, hgathered, hfinish⟩ := (ofNode_ofMembers_eq_ok_iff fun f =>
    List.nodup_iff_count.mp hnodup f.title).mp hreport
  obtain ⟨hdelay, httl⟩ := Draft.durations_finish hfinish
  have hread := Duration.ofNode_noTime r hnone
  constructor
  · intro hmem
    have hheld : d.lockDelay = some .zero :=
      Fields.Gathered.get_eq (F := fields r) (f := Field.lockDelay) hgathered hmem hread
    rw [hdelay, hheld, Option.getD_some]
  · intro hmem
    have hheld : d.ttl = some .zero :=
      Fields.Gathered.get_eq (F := fields r) (f := Field.ttl) hgathered hmem hread
    rw [httl, hheld, Option.getD_some]

/-! ## Arrays -/

/-- The next item of an array fills the next field, as the member of an object does. -/
theorem nextItem_field {r : Nat} {d : Draft} {f : Field} {n : Node} {items : List Node}
    {members : List (String × Node)} {use : Option f.Holds × List Node → Decoded SessionInfo}
    (hnone : d.get f = none)
    (hnext : ∀ v, use (some v, items) =
      (fields r).takeAll (d.put f (some v)) members >>= Draft.finish) :
    Node.nextItem true (f.read r) (n :: items) >>= use =
      (fields r).takeAll d ((f.title, n) :: members) >>= Draft.finish := by
  rw [takeAll_given hnone, Node.nextItem]
  cases f.read r n with
  | error e => rfl
  | ok v => exact hnext v

theorem ofItems_eq (r : Nat) (id name node behavior lockDelay ttl createIndex : Node) :
    ofItems r [id, name, node, behavior, lockDelay, ttl, createIndex] true =
      (fields r).takeAll {} [("ID", id), ("Name", name), ("Node", node), ("Behavior", behavior),
        ("LockDelay", lockDelay), ("TTL", ttl), ("CreateIndex", createIndex)] >>= Draft.finish := by
  unfold ofItems
  refine nextItem_field (f := .id) rfl fun _ => ?_
  refine nextItem_field (f := .name) rfl fun _ => ?_
  refine nextItem_field (f := .node) rfl fun _ => ?_
  refine nextItem_field (f := .behavior) rfl fun _ => ?_
  refine nextItem_field (f := .lockDelay) rfl fun _ => ?_
  refine nextItem_field (f := .ttl) rfl fun _ => ?_
  refine nextItem_field (f := .createIndex) rfl fun _ => ?_
  rfl

theorem ofNode_array {values : List Node} (h : values.length = 7) :
    ofNode remaining (.array values true) =
      ofNode remaining (.ofMembers ((Field.all.map Field.title).zip values)) := by
  obtain ⟨id, name, node, behavior, lockDelay, ttl, createIndex, rfl⟩ :
      ∃ a b c d e f g, values = [a, b, c, d, e, f, g] := by
    match values, h with
    | [a, b, c, d, e, f, g], _ => exact ⟨a, b, c, d, e, f, g, rfl⟩
  rw [ofNode_ofMembers]
  unfold ofNode
  simp only [ofItems_eq]
  rfl

/-- A report is decided by the members of known names. An object that gives no name twice is read
the same in every order and with any whole values under other names put in anywhere; a member whose
value says nothing of its field might as well be left out, and no time at all, in whatever form, is
a duration of zero; and an array of seven values is the object that gives them to the fields in
order. -/
theorem known_members_decide (remaining : Nat) :
    (∀ members extra order : List (String × Node), (members.map (·.1)).Nodup →
      (∀ m ∈ extra, (∀ f : Field, f.title ≠ m.1) ∧ m.2.IsWhole) →
      order.Perm (members ++ extra) → ∀ x,
        ofNode remaining (.ofMembers order) = .ok x ↔
          ofNode remaining (.ofMembers members) = .ok x) ∧
    (∀ (f : Field) (n : Node) (before after : List (String × Node)), f.Neutral n →
      f.title ∉ (before ++ after).map (·.1) →
      ofNode remaining (.ofMembers (before ++ (f.title, n) :: after)) =
        ofNode remaining (.ofMembers (before ++ after))) ∧
    (∀ (members : List (String × Node)) (x : SessionInfo), (members.map (·.1)).Nodup →
      ofNode remaining (.ofMembers members) = .ok x → ∀ n, Duration.IsNoTime n →
        (("LockDelay", n) ∈ members → x.lockDelay = .zero) ∧
          (("TTL", n) ∈ members → x.ttl = .zero)) ∧
    ∀ values : List Node, values.length = 7 →
      ofNode remaining (.array values true) =
        ofNode remaining (.ofMembers ((Field.all.map Field.title).zip values)) := by
  refine ⟨fun members extra order hnodup hextra horder x => ?_,
    fun f n before after hneutral hnew => ?_, fun members x hnodup hreport n hnone => ?_,
    fun values => ofNode_array⟩
  · exact ofNode_reordered hnodup hextra horder
  · rw [List.map_append, List.mem_append, not_or] at hnew
    exact ofNode_omitted hneutral hnew.1 hnew.2
  · exact durations_of_noTime hnodup hreport hnone

/-- A report of some of the fields. -/
def reported : List (String × Node) :=
  [("ID", .text (some "s-1")), ("Behavior", .text (some "delete")), ("TTL", .number (.ofNat 30))]

/-- A member of another name. -/
def checks : List (String × Node) :=
  [("Checks", (Value.array [.text "serfHealth", .object []]).node)]

/-- The values of the same report, in the order of the fields. -/
def reportedValues : List Node :=
  [.text (some "s-1"), .text (some ""), .text (some ""), .text (some "delete"), .null,
    .number (.ofNat 30), .number (.ofNat 0)]

/-- The same report read from its members, from more of them in another order, with a blank
lock-delay, and from an array. -/
theorem known_members_decide_of_reported :
    let report : SessionInfo := { id := "s-1", behavior := .delete, ttl := .ofNanos 30000000000 }
    ofNode nestingLimit (.ofMembers reported) = .ok report ∧
      ofNode nestingLimit (.ofMembers (reported ++ checks).reverse) = .ok report ∧
      ofNode nestingLimit (.ofMembers (("LockDelay", .text (some " ")) :: reported)) =
        .ok report ∧
      report.lockDelay = .zero ∧
      ofNode nestingLimit (.array reportedValues true) = .ok report := by
  intro report
  have hreport : ofNode nestingLimit (.ofMembers reported) = .ok report := by decide +kernel
  have hnodup : (reported.map (·.1)).Nodup := by decide
  have hextra : ∀ m ∈ checks, (∀ f : Field, f.title ≠ m.1) ∧ m.2.IsWhole :=
    List.forall_mem_singleton.mpr ⟨fun f => by cases f <;> decide, Value.isWhole_node _⟩
  have hblank : Duration.IsNoTime (.text (some " ")) := .blank rfl
  obtain ⟨hreorder, homit, hzero, harray⟩ := known_members_decide nestingLimit
  have hdelayed : ofNode nestingLimit
      (.ofMembers (("LockDelay", .text (some " ")) :: reported)) = .ok report :=
    (homit .lockDelay _ [] reported (.lockDelay hblank) (by decide)).trans hreport
  refine ⟨hreport, ?_, hdelayed, ?_, ?_⟩
  · exact (hreorder _ _ _ hnodup hextra (List.reverse_perm _) report).mpr hreport
  · exact (hzero _ report (by decide) hdelayed _ hblank).1 List.mem_cons_self
  · exact (harray reportedValues rfl).trans (by decide +kernel)

end SessionInfo

end Tenure
