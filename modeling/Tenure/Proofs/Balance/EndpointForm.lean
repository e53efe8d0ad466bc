import Mathlib.Data.List.Permutation
import Tenure.Balance.Endpoint.Wire
import Tenure.Proofs.Duration.Limbs
import Tenure.Proofs.Duration.WholeNumbers
import Tenure.Proofs.Json.Fields

/-!
# Endpoints read back from their JSON form

An endpoint is written as an object of its six fields, two of which are objects themselves: the
metadata, and the round-trip time in whole seconds and nanoseconds. Reading takes the members of all
three in any order and passes over members of other names beside the six, but does without none of
them.

* `Metadata.ofNode_noted`, `Duration.ofPartsNode_parts` and `Endpoint.tagsOfNode_value` read the
  parts of an endpoint, and `Endpoint.read_member` each of its fields;
* `Endpoint.takeAll_members` is what a draft holds after some of the members, for any choice of
  them;
* `Endpoint.lossless` finishes it: the endpoint itself after all of them, and the name of the one
  that is missing after all others.
-/

namespace Tenure

open Json

/-! ## Metadata -/

namespace Metadata

theorem place_perm {key value : String} {entries : List (String × String)}
    (h : key ∉ entries.map (·.1)) : (place key value entries).Perm ((key, value) :: entries) := by
  induction entries with
  | nil => exact .refl _
  | cons e rest ih =>
      obtain ⟨hne, hrest⟩ := not_or.mp (mt List.mem_cons.mpr h)
      unfold place
      rw [if_neg hne]
      split
      · exact .refl _
      · exact ((ih hrest).cons e).trans (.swap ..)

/-- Entries with new keys, none of them twice, are all taken in. -/
theorem entries_foldl_perm {noted : List (String × String)} (m : Metadata)
    (hnodup : (noted.map (·.1)).Nodup) (hnew : ∀ e ∈ noted, e.1 ∉ m.entries.map (·.1)) :
    (noted.foldl (fun m e => m.insert e.1 e.2) m).entries.Perm (noted ++ m.entries) := by
  induction noted generalizing m with
  | nil => exact .refl _
  | cons e noted ih =>
      obtain ⟨hfirst, hrest⟩ := List.nodup_cons.mp hnodup
      obtain ⟨hgone, hlater⟩ := List.forall_mem_cons.mp hnew
      have hplace : (m.insert e.1 e.2).entries.Perm (e :: m.entries) := place_perm hgone
      refine (ih (m.insert e.1 e.2) hrest fun c hc hmem => ?_).trans ?_
      · rcases List.mem_cons.mp ((hplace.map (·.1)).mem_iff.mp hmem) with hsame | hmem
        · exact hfirst (hsame ▸ List.mem_map_of_mem hc)
        · exact hlater c hc hmem
      · exact (hplace.append_left noted).trans List.perm_middle

theorem eq_of_entries_eq {m m' : Metadata} (h : m.entries = m'.entries) : m = m' := by
  cases m
  cases m'
  cases h
  rfl

/-- Entries are the same metadata in every order. -/
theorem ofList_of_perm {noted : List (String × String)} {m : Metadata}
    (h : noted.Perm m.entries) : ofList noted = m := by
  have hnodup : (noted.map (·.1)).Nodup := by
    rw [(h.map (·.1)).nodup_iff, List.nodup_iff_pairwise_ne, List.pairwise_map]
    exact m.ordered.imp fun hlt => String.ne_of_lt hlt
  have hperm : (ofList noted).entries.Perm m.entries := by
    have hall := entries_foldl_perm empty hnodup fun _ _ => List.not_mem_nil
    exact (hall.trans (by rw [show empty.entries = [] from rfl, List.append_nil])).trans h
  -- both stand in the order of their keys, so they do not differ in their order either
  refine eq_of_entries_eq (hperm.eq_of_pairwise (fun a b _ _ hab hba => ?_)
    (ofList noted).ordered m.ordered)
  exact absurd hba (String.lt_asymm hab)

theorem foldlM_take (m : Metadata) (noted : List (String × String)) :
    (noted.map fun e => (e.1, Node.text (some e.2))).foldlM (fun m e => take m e.1 e.2) m =
      (.ok (noted.foldl (fun m e => m.insert e.1 e.2) m) : Decoded Metadata) := by
  induction noted generalizing m with
  | nil => rfl
  | cons e noted ih => exact ih (m.insert e.1 e.2)

theorem ofNode_noted (remaining : Nat) {noted : List (String × String)} {m : Metadata}
    (h : noted.Perm m.entries) :
    ofNode (remaining + 1) (Value.object (noted.map fun e => (e.1, .text e.2))).node = .ok m := by
  have hnodes : (noted.map fun e => (e.1, Value.text e.2)).map (fun m => (m.1, m.2.node)) =
      noted.map fun e => (e.1, Node.text (some e.2)) := by
    rw [List.map_map]
    rfl
  rw [Value.node_object, hnodes]
  show Node.eachMember take empty _ true = _
  rw [Node.eachMember_named, foldlM_take, ← ofList_of_perm h, ofList]

end Metadata

/-! ## Round-trip times -/

/-- A natural number that fits a word is read as itself if it has no more bits than are asked
for. -/
theorem Json.Node.asNatural_value {n bits : Nat} (hbits : n < Nat.pow 2 bits)
    (hword : n < wordBound) : (Value.number (.natural n)).node.asNatural bits = .ok n := by
  show Node.asNatural bits (.number (Literal.ofNat n)) = _
  unfold Node.asNatural
  dsimp only
  rw [Literal.value_ofNat hword]
  exact if_pos hbits

namespace Duration

/-- The parts of a duration, as they are written. -/
def parts (d : Duration) : List (String × Value) :=
  [("secs", .number (.natural d.secs)), ("nanos", .number (.natural d.subsecNanos))]

-- stated of the function as a whole: with arguments, checking it would compute with the bound
theorem ofParts_eq : ofParts = fun secs nanos =>
    match ofParts? secs nanos with
    | some d => .ok d
    | none => unfit .durationOverflow := rfl

theorem ofParts_secs (d : Duration) : ofParts d.secs d.subsecNanos = .ok d := by
  have hsum : ofParts? d.secs d.subsecNanos = some d :=
    ofNanos?_eq_some_iff.mpr (Nat.div_add_mod' d.nanos nanosPerSecond).symm
  rw [ofParts_eq]
  dsimp only
  rw [hsum]

theorem PartsDraft.finish_both (secs nanos : Nat) :
    PartsDraft.finish { secs := some secs, nanos := some nanos } = ofParts secs nanos := rfl

/-- An object is read as the draft that its members fill. -/
theorem ofPartsNode_ofMembers (remaining : Nat) {members : List (String × Node)}
    {draft : PartsDraft}
    (h : members.foldlM (fun s m => PartsDraft.take s m.1 m.2) {} = (.ok draft : Decoded _)) :
    ofPartsNode (remaining + 1) (.ofMembers members) = draft.finish := by
  show Node.eachMember PartsDraft.take {} _ true >>= PartsDraft.finish = _
  rw [Node.eachMember_named, h]
  rfl

section Parts

variable {d : Duration}

theorem PartsDraft.take_secs (nanos : Option Nat) :
    PartsDraft.take { nanos } "secs" (Value.number (.natural d.secs)).node =
      .ok { secs := some d.secs, nanos } := by
  have hread : (Value.number (.natural d.secs)).node.asNatural 64 = .ok d.secs :=
    Node.asNatural_value d.secs_lt d.secs_lt
  unfold PartsDraft.take
  dsimp only
  rw [hread]
  rfl

theorem PartsDraft.take_nanos (secs : Option Nat) :
    PartsDraft.take { secs } "nanos" (Value.number (.natural d.subsecNanos)).node =
      .ok { secs, nanos := some d.subsecNanos } := by
  have hlt := d.subsecNanos_lt
  have hread : (Value.number (.natural d.subsecNanos)).node.asNatural 32 = .ok d.subsecNanos :=
    Node.asNatural_value (Nat.lt_trans hlt (by decide)) (Nat.lt_trans hlt (by decide))
  unfold PartsDraft.take
  dsimp only
  rw [hread]
  rfl

/-- The parts of a duration are read in either order. -/
theorem ofPartsNode_parts (remaining : Nat) {order : List (String × Value)}
    (h : order.Perm d.parts) :
    ofPartsNode (remaining + 1) (Value.object order).node = .ok d := by
  have htaken : (order.map fun m => (m.1, m.2.node)).foldlM
      (fun s m => PartsDraft.take s m.1 m.2) {} =
        (.ok { secs := some d.secs, nanos := some d.subsecNanos } : Decoded PartsDraft) := by
    rcases List.perm_pair.mp h with rfl | rfl
    · show (PartsDraft.take {} "secs" _ >>= fun s => PartsDraft.take s "nanos" _ >>= pure) = _
      rw [PartsDraft.take_secs]
      show PartsDraft.take _ "nanos" _ >>= pure = _
      rw [PartsDraft.take_nanos]
      rfl
    · show (PartsDraft.take {} "nanos" _ >>= fun s => PartsDraft.take s "secs" _ >>= pure) = _
      rw [PartsDraft.take_nanos]
      show PartsDraft.take _ "secs" _ >>= pure = _
      rw [PartsDraft.take_secs]
      rfl
  rw [Value.node_object, ofPartsNode_ofMembers remaining htaken, PartsDraft.finish_both,
    ofParts_secs]

end Parts

end Duration

namespace Endpoint

/-! ## Tags -/

theorem tagsOfNode_value (remaining : Nat) (tags : List String) :
    tagsOfNode (remaining + 1) (Value.array (tags.map .text)).node = .ok tags := by
  have hitems : (Value.nodes (tags.map .text)).mapM Node.asText = .ok tags := by
    induction tags with
    | nil => rfl
    | cons tag tags ih =>
        rw [List.map_cons, Value.nodes, List.mapM_cons, ih]
        rfl
  show Node.eachItem Node.asText (Value.nodes (tags.map .text)) true = _
  rw [Node.eachItem, hitems]
  rfl

/-! ## Fields -/

/-- The fields of an endpoint. -/
inductive Field
  | id
  | node
  | addr
  | tags
  | metadata
  | rtt
deriving DecidableEq

namespace Field

/-- The name of the member that gives a field. -/
def title : Field → String
  | id => "id"
  | node => "node"
  | addr => "addr"
  | tags => "tags"
  | metadata => "meta"
  | rtt => "rtt"

/-- Every field. -/
def all : List Field := [id, node, addr, tags, metadata, rtt]

/-- What a field holds. -/
def Holds : Field → Type
  | id | node | addr => String
  | tags => List String
  | metadata => Metadata
  | rtt => Duration

/-- How the value of a field is read. -/
def read (remaining : Nat) : (f : Field) → Node → Decoded f.Holds
  | id | node | addr => Node.asText
  | tags => tagsOfNode remaining
  | metadata => Metadata.ofNode remaining
  | rtt => Duration.ofPartsNode remaining

theorem title_injective {f g : Field} (h : f.title = g.title) : f = g := by
  cases f <;> cases g <;> first | rfl | exact absurd h (by decide)

theorem mem_all (f : Field) : f ∈ all := by
  cases f <;> decide

end Field

namespace Draft

/-- What a draft holds in a field. -/
def get (d : Draft) : (f : Field) → Option f.Holds
  | .id => d.id
  | .node => d.node
  | .addr => d.addr
  | .tags => d.tags
  | .metadata => d.metadata
  | .rtt => d.rtt

/-- A draft with one field filled anew. -/
def put (d : Draft) : (f : Field) → Option f.Holds → Draft
  | .id, v => { d with id := v }
  | .node, v => { d with node := v }
  | .addr, v => { d with addr := v }
  | .tags, v => { d with tags := v }
  | .metadata, v => { d with metadata := v }
  | .rtt, v => { d with rtt := v }

variable {remaining : Nat} {d d' : Draft} {f g : Field}

theorem get_put_self (v : Option f.Holds) : (d.put f v).get f = v := by
  cases f <;> rfl

theorem get_put_of_ne (v : Option f.Holds) (h : g ≠ f) : (d.put f v).get g = d.get g := by
  cases f <;> cases g <;> first | rfl | exact absurd rfl h

theorem get_empty (f : Field) : ({} : Draft).get f = none := by
  cases f <;> rfl

theorem ext_get (h : ∀ f, d.get f = d'.get f) : d = d' := by
  obtain ⟨id, node, addr, tags, metadata, rtt⟩ := d
  obtain ⟨id', node', addr', tags', metadata', rtt'⟩ := d'
  obtain rfl : id = id' := h .id
  obtain rfl : node = node' := h .node
  obtain rfl : addr = addr' := h .addr
  obtain rfl : tags = tags' := h .tags
  obtain rfl : metadata = metadata' := h .metadata
  obtain rfl : rtt = rtt' := h .rtt
  rfl

/-- A member of a known name fills its field. -/
theorem take_title (d : Draft) (f : Field) (n : Node) :
    Draft.take remaining d f.title n =
      (do return d.put f (← fillOnce f.title (d.get f) (f.read remaining n))) := by
  cases f <;> rfl

/-- A member of another name is passed over. -/
theorem take_unknown {name : String} (h : ∀ f : Field, f.title ≠ name) (d : Draft) (n : Node) :
    Draft.take remaining d name n = n.skip.map fun _ => d := by
  have hskip : Draft.take remaining d name n = (do n.skip; return d) := by
    unfold Draft.take
    split
    · exact absurd rfl (h .id)
    · exact absurd rfl (h .node)
    · exact absurd rfl (h .addr)
    · exact absurd rfl (h .tags)
    · exact absurd rfl (h .metadata)
    · exact absurd rfl (h .rtt)
    · rfl
  rw [hskip]
  cases n.skip <;> rfl

end Draft

/-- How a draft of an endpoint is filled: members of unknown names are passed over. -/
def fields (remaining : Nat) : Fields Field Field.Holds Draft where
  title := Field.title
  read := Field.read remaining
  pass _ n := n.skip
  take := Draft.take remaining
  get := Draft.get
  put := Draft.put
  title_injective := Field.title_injective
  ext_get := Draft.ext_get
  get_put_self _ _ := Draft.get_put_self
  get_put_of_ne _ _ _ := Draft.get_put_of_ne
  take_title := Draft.take_title
  take_unknown := Draft.take_unknown

theorem ofNode_ofMembers (remaining : Nat) (members : List (String × Node)) :
    ofNode remaining (.ofMembers members) =
      Node.opening remaining fun r => (fields r).takeAll {} members >>= Draft.finish := by
  unfold ofNode Node.ofMembers
  simp only [← Fields.eachMember_take]
  rfl

/-! ## An endpoint and its members -/

/-- What an endpoint has in a field. -/
def field (e : Endpoint) : (f : Field) → f.Holds
  | .id => e.id
  | .node => e.node
  | .addr => e.addr
  | .tags => e.tags
  | .metadata => e.metadata
  | .rtt => e.rtt

/-- The member of a field, with the entries of the metadata and the parts of the round-trip time in
these orders. -/
def member (e : Endpoint) (noted : List (String × String)) (parts : List (String × Value))
    (f : Field) : String × Value :=
  (f.title, match f with
    | .id => .text e.id
    | .node => .text e.node
    | .addr => .text e.addr
    | .tags => .array (e.tags.map .text)
    | .metadata => .object (noted.map fun n => (n.1, .text n.2))
    | .rtt => .object parts)

/-- The draft of all fields. -/
def draft (e : Endpoint) : Draft :=
  { id := some e.id, node := some e.node, addr := some e.addr, tags := some e.tags
    metadata := some e.metadata, rtt := some e.rtt }

section Members

variable {e : Endpoint} {noted : List (String × String)} {parts : List (String × Value)}

theorem get_draft (f : Field) : e.draft.get f = some (e.field f) := by
  cases f <;> rfl

/-- An endpoint without one of its fields is no endpoint, and the field is named. -/
theorem finish_put_none (f : Field) :
    (e.draft.put f none).finish = unfit (.missingField f.title) := by
  cases f <;> rfl

theorem read_member (remaining : Nat) (hnoted : noted.Perm e.metadata.entries)
    (hparts : parts.Perm e.rtt.parts) (f : Field) :
    f.read (remaining + 1) (e.member noted parts f).2.node = .ok (e.field f) := by
  cases f with
  | id | node | addr => rfl
  | tags => exact tagsOfNode_value remaining e.tags
  | metadata => exact Metadata.ofNode_noted remaining hnoted
  | rtt => exact Duration.ofPartsNode_parts remaining hparts

/-- What a draft holds after some of the members, in any order and among others. -/
theorem takeAll_members (remaining : Nat) (hnoted : noted.Perm e.metadata.entries)
    (hparts : parts.Perm e.rtt.parts) {given : List Field} (hnodup : given.Nodup) {d : Draft}
    (hheld : ∀ f ∈ given, d.get f = some (e.field f)) (hrest : ∀ f ∉ given, d.get f = none)
    {extra order : List (String × Value)} (hextra : ∀ m ∈ extra, ∀ f : Field, f.title ≠ m.1)
    (horder : order.Perm (given.map (e.member noted parts) ++ extra)) :
    (fields (remaining + 1)).takeAll {} (order.map fun m => (m.1, m.2.node)) = .ok d := by
  have hnames : (given.map (e.member noted parts)).map (·.1) = given.map Field.title :=
    List.map_map
  refine Fields.takeAll_values Draft.get_empty ?_
    (fun m hm => ⟨hextra m hm, (Value.isWhole_node m.2).skip⟩) horder ?_ fun f hf => ?_
  · rw [hnames]
    exact hnodup.map fun _ _ => Field.title_injective
  · intro m hm
    obtain ⟨f, hf, rfl⟩ := List.mem_map.mp hm
    exact (Fields.fits_title (fields _)).mpr
      ⟨e.field f, read_member remaining hnoted hparts f, hheld f hf⟩
  · rw [hnames] at hf
    exact hrest f (mt List.mem_map_of_mem hf)

end Members

/-- An endpoint is written without loss. The object of its six members is read as the endpoint, and
so is every object that consists of them in any order, with the entries of the metadata and the
parts of the round-trip time in any order as well, and of any members of other names; where one of
the six is missing among them, whichever it is, the object is refused, and the error names it. -/
theorem lossless (e : Endpoint) :
    e.value = .object (Field.all.map (e.member e.metadata.entries e.rtt.parts)) ∧
    ∀ (remaining : Nat) (noted : List (String × String))
      (parts extra order : List (String × Value)), noted.Perm e.metadata.entries →
      parts.Perm e.rtt.parts → (∀ m ∈ extra, ∀ f : Field, f.title ≠ m.1) →
      (order.Perm (Field.all.map (e.member noted parts) ++ extra) →
        ofNode (remaining + 2) (Value.object order).node = .ok e) ∧
      ∀ f : Field, order.Perm ((Field.all.erase f).map (e.member noted parts) ++ extra) →
        ofNode (remaining + 2) (Value.object order).node = unfit (.missingField f.title) := by
  refine ⟨rfl, fun remaining noted parts extra order hnoted hparts hextra => ?_⟩
  have hread (d : Draft)
      (htaken : (fields (remaining + 1)).takeAll {} (order.map fun m => (m.1, m.2.node)) = .ok d) :
      ofNode (remaining + 2) (Value.object order).node = d.finish := by
    rw [Value.node_object, ofNode_ofMembers]
    show (fields (remaining + 1)).takeAll {} _ >>= Draft.finish = _
    rw [htaken]
    rfl
  have hnodup : Field.all.Nodup := by decide
  constructor
  · intro horder
    exact hread e.draft <| takeAll_members remaining hnoted hparts hnodup (fun f _ => get_draft f)
      (fun f hf => absurd f.mem_all hf) hextra horder
  · intro f horder
    rw [← finish_put_none f (e := e)]
    refine hread (e.draft.put f none) <| takeAll_members remaining hnoted hparts (hnodup.erase f)
      (fun g hg => ?_) (fun g hg => ?_) hextra horder
    · have hne : g ≠ f := fun heq => hnodup.not_mem_erase (heq ▸ hg)
      rw [Draft.get_put_of_ne none hne, get_draft]
    · have heq : g = f := by
        by_contra hne
        exact hg ((List.mem_erase_of_ne hne).mpr g.mem_all)
      subst heq
      exact Draft.get_put_self none

/-- An endpoint with a tag that occurs twice and the longest of all times. -/
def crowded : Endpoint where
  id := "db-1"
  node := "λ"
  addr := "10.0.0.1:5432"
  tags := ["sql", "sql"]
  metadata := .ofList [("rack", "r1"), ("zone", "β")]
  rtt := .longest

/-- Its members backwards, and those of its metadata and its round-trip time backwards. -/
theorem lossless_of_crowded :
    let noted := [("zone", "β"), ("rack", "r1")]
    let parts := crowded.rtt.parts.reverse
    let extra := [("zone", Value.null), ("zone", .array [.object []])]
    (noted.Perm crowded.metadata.entries ∧ parts.Perm crowded.rtt.parts ∧
      ∀ m ∈ extra, ∀ f : Field, f.title ≠ m.1) ∧
    ofNode nestingLimit
      (Value.object ((Field.all.map (crowded.member noted parts)).reverse ++ extra)).node =
        .ok crowded ∧
    ∀ f : Field, ofNode nestingLimit
      (Value.object (extra ++ (Field.all.erase f).map (crowded.member noted parts))).node =
        unfit (.missingField f.title) := by
  intro noted parts extra
  have hnoted : noted.Perm crowded.metadata.entries := by
    have hentries : crowded.metadata.entries = [("rack", "r1"), ("zone", "β")] := by decide +kernel
    rw [hentries]
    exact .swap ..
  have hparts : parts.Perm crowded.rtt.parts := List.reverse_perm _
  have hextra : ∀ m ∈ extra, ∀ f : Field, f.title ≠ m.1 :=
    List.forall_mem_cons.mpr ⟨fun f => by cases f <;> decide,
      List.forall_mem_singleton.mpr fun f => by cases f <;> decide⟩
  have hread (order : List (String × Value)) :=
    crowded.lossless.2 125 noted parts extra order hnoted hparts hextra
  exact ⟨⟨hnoted, hparts, hextra⟩, (hread _).1 ((List.reverse_perm _).append_right extra),
    fun f => (hread _).2 f List.perm_append_comm⟩

end Endpoint

end Tenure
