import Tenure.Proofs.Duration.RoundTrip
import Tenure.Proofs.Session.Members

/-!
# A session reads back from its own request

The request that creates a session and the report of a session are written and read by two
separate pieces of code, which agree on the names of the members and on how a duration is written.
A report that consists of the members of the request and an identifier, in any order, is the
session that was asked for.

* `SessionConfig.told` is the draft that the members of a request and an identifier add up to:
  `fits_members` says that it holds what each of them gives, `told_eq_none` that it holds nothing
  else, and so `ofNode_members` reads them in any order;
* `session_reads_back` is the whole way from `Session.wire?` to `SessionInfo.ofNode`, the durations
  exact to the nanosecond.
-/

namespace Tenure

open Json

/-! ## Fields -/

/-- A behaviour is read from the name that is written for it. -/
theorem Behavior.ofNode_name (remaining : Nat) (b : Behavior) :
    Behavior.ofNode remaining (Value.text b.name).node = .ok b := by
  cases b <;> rfl

/-! ## Requests and reports -/

/-- The members of a request. -/
def SessionConfig.members (c : SessionConfig) : List (String × Value) :=
  (c.name.map fun n => ("Name", Value.text n)).toList ++ [("Behavior", .text c.behavior.name),
    ("LockDelay", .text c.lockDelay), ("TTL", .text c.ttl)]

theorem SessionConfig.value_eq (c : SessionConfig) : c.value = .object c.members := by
  unfold value members
  cases c.name <;> rfl

/-- What a request and an identifier tell, where the durations of the request read as these. -/
def SessionConfig.told (c : SessionConfig) (id : String) (lockDelay ttl : Duration) :
    SessionInfo.Draft where
  id := some id
  name := c.name
  behavior := some c.behavior
  lockDelay := some lockDelay
  ttl := some ttl

section Report

variable {c : SessionConfig} {id : String} {lockDelay ttl : Duration}

theorem SessionConfig.fits_members (remaining : Nat)
    (hdelay : Duration.parse? c.lockDelay = some lockDelay)
    (httl : Duration.parse? c.ttl = some ttl) :
    ∀ m ∈ ("ID", Value.text id) :: c.members,
      (SessionInfo.fields remaining).Fits (c.told id lockDelay ttl) m.1 m.2.node := by
  have hfits (f : SessionInfo.Field) (v : f.Holds) (n : Node) (hread : f.read remaining n = .ok v)
      (hheld : (c.told id lockDelay ttl).get f = some v) :
      (SessionInfo.fields remaining).Fits (c.told id lockDelay ttl) f.title n :=
    (SessionInfo.fields remaining).fits_title.mpr ⟨v, hread, hheld⟩
  refine List.forall_mem_cons.mpr ⟨hfits .id id _ rfl rfl, List.forall_mem_append.mpr ⟨?_, ?_⟩⟩
  · intro m hm
    obtain ⟨n, hn, rfl⟩ := Option.map_eq_some_iff.mp (Option.mem_toList.mp hm)
    exact hfits .name n _ rfl hn
  · simp only [List.forall_mem_cons]
    exact ⟨hfits .behavior c.behavior _ (Behavior.ofNode_name remaining _) rfl,
      hfits .lockDelay lockDelay _ (Duration.ofNode_text remaining hdelay) rfl,
      hfits .ttl ttl _ (Duration.ofNode_text remaining httl) rfl, List.forall_mem_nil _⟩

theorem SessionConfig.nodup_names (c : SessionConfig) (id : String) :
    ((("ID", Value.text id) :: c.members).map (·.1)).Nodup := by
  unfold members
  cases c.name <;> simp

/-- A request and an identifier tell nothing of the fields that they have no member for. -/
theorem SessionConfig.told_eq_none {f : SessionInfo.Field}
    (h : f.title ∉ (("ID", Value.text id) :: c.members).map (·.1)) :
    (c.told id lockDelay ttl).get f = none := by
  unfold members at h
  cases f with
  | node | createIndex => rfl
  | name =>
      show c.name = none
      cases hname : c.name with
      | none => rfl
      | some n => simp [hname, SessionInfo.Field.title] at h
  | id | behavior | lockDelay | ttl => simp [SessionInfo.Field.title] at h

/-- A report of the members of a request and an identifier, in any order. -/
theorem SessionConfig.ofNode_members (remaining : Nat)
    (hdelay : Duration.parse? c.lockDelay = some lockDelay)
    (httl : Duration.parse? c.ttl = some ttl) {order : List (String × Value)}
    (horder : order.Perm (("ID", .text id) :: c.members)) :
    SessionInfo.ofNode (remaining + 1) (Value.object order).node =
      .ok { id, name := c.name.getD "", behavior := c.behavior, lockDelay, ttl } := by
  rw [← List.append_nil (_ :: _)] at horder
  have htaken : (SessionInfo.fields remaining).takeAll {} (order.map fun m => (m.1, m.2.node)) =
      .ok (c.told id lockDelay ttl) :=
    Fields.takeAll_values SessionInfo.Draft.get_empty (c.nodup_names id) (List.forall_mem_nil _)
      horder (fits_members remaining hdelay httl) fun _ => told_eq_none
  rw [Value.node_object, SessionInfo.ofNode_ofMembers]
  show (SessionInfo.fields remaining).takeAll {} _ >>= SessionInfo.Draft.finish = _
  rw [htaken]
  rfl

end Report

/-- The request of a session says what it is called, what becomes of its locks and how long they
last. -/
theorem Session.exists_wire {s : Session} {ttl : Duration} (hsome : s.effectiveTtl? = some ttl)
    (hdelay : s.effectiveLockDelay.nanos ≤ 2 ^ 50) (httl : ttl.nanos ≤ 2 ^ 50) :
    ∃ config, s.wire? = some config ∧ config.name = s.name ∧ config.behavior = s.behavior ∧
      Duration.parse? config.lockDelay = some s.effectiveLockDelay ∧
      Duration.parse? config.ttl = some ttl := by
  have hdelay := Duration.parse?_render hdelay
  have httl := Duration.parse?_render httl
  unfold wire?
  rw [hsome]
  generalize s.effectiveLockDelay.render = lockDelayText at *
  generalize hrender : ttl.render = ttlText at *
  refine ⟨⟨s.name, s.behavior, lockDelayText, ttlText⟩, ?_, rfl, rfl, hdelay, httl⟩
  rw [Option.map_some, hrender]

/-- A session that resolves, asked for and reported with the members of its request and any
identifier, in any order and at any depth that may be opened, reads back with that identifier and
with its own name, behaviour, lock-delay and TTL, as long as the latter two are at most `2^50`
nanoseconds. And any duration up to that bound reads back from what is written for it. -/
theorem session_reads_back :
    (∀ s resolved : Session, s.resolve = .ok resolved → s.effectiveLockDelay.nanos ≤ 2 ^ 50 →
      (∀ ttl, s.effectiveTtl? = some ttl → ttl.nanos ≤ 2 ^ 50) →
      ∃ ttl config members, s.effectiveTtl? = some ttl ∧ s.wire? = some config ∧
        resolved.wire? = some config ∧ config.value = .object members ∧
        ∀ (remaining : Nat) (id : String) (order : List (String × Value)),
          order.Perm (("ID", .text id) :: members) →
          SessionInfo.ofNode (remaining + 1) (Value.object order).node = .ok {
            id, name := s.name.getD "", behavior := s.behavior
            lockDelay := s.effectiveLockDelay, ttl }) ∧
    ∀ d : Duration, d.nanos ≤ 2 ^ 50 → Duration.parse? d.render = some d := by
  refine ⟨fun s resolved hresolve hdelay httl => ?_, fun d => Duration.parse?_render⟩
  obtain ⟨ttl, hsome, -, -⟩ := Session.resolve_eq_ok hresolve
  obtain ⟨config, hwire, hname, hbehavior, hdelay, httl⟩ :=
    Session.exists_wire hsome hdelay (httl ttl hsome)
  refine ⟨ttl, config, config.members, hsome, hwire,
    (Session.wire?_of_resolve hresolve).trans hwire, config.value_eq,
    fun remaining id order horder => ?_⟩
  rw [SessionConfig.ofNode_members remaining hdelay httl horder, hname, hbehavior]

/-- A session with a lock-delay that no unit divides. -/
def uneven : Session :=
  { name := some "worker", behavior := .delete, lockDelay := some (.ofNanos 1123456789) }

/-- Its report, with the identifier last. -/
theorem session_reads_back_of_uneven :
    (∃ config members, uneven.wire? = some config ∧ config.value = .object members ∧
      SessionInfo.ofNode nestingLimit (Value.object (members ++ [("ID", .text "s-1")])).node =
        .ok { id := "s-1", name := "worker", behavior := .delete
              lockDelay := .ofNanos 1123456789, ttl := .ofNanos 2246913578 }) ∧
      (Duration.ofNanos 1123456789).nanos ≤ 2 ^ 50 ∧
      Duration.parse? (Duration.ofNanos 1123456789).render = some (.ofNanos 1123456789) := by
  have hresolve : uneven.resolve = .ok
      { uneven with ttl := some (.ofNanos 2246913578) } := by decide +kernel
  have hdelay : uneven.effectiveLockDelay.nanos ≤ 2 ^ 50 := by decide +kernel
  have httl : uneven.effectiveTtl? = some (.ofNanos 2246913578) := by decide +kernel
  have hsmall : ∀ ttl, uneven.effectiveTtl? = some ttl → ttl.nanos ≤ 2 ^ 50 := by
    intro ttl hsome
    obtain rfl := Option.some.inj (httl.symm.trans hsome)
    decide
  have hbound : (Duration.ofNanos 1123456789).nanos ≤ 2 ^ 50 := by decide
  refine ⟨?_, hbound, session_reads_back.2 _ hbound⟩
  obtain ⟨ttl, config, members, hsome, hwire, -, hvalue, hread⟩ :=
    session_reads_back.1 uneven _ hresolve hdelay hsmall
  obtain rfl := Option.some.inj (httl.symm.trans hsome)
  exact ⟨config, members, hwire, hvalue, hread 126 "s-1" _ List.perm_append_comm⟩

end Tenure
