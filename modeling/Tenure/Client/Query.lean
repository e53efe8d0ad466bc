import Tenure.Url.Form

/-!
# Query strings

An ordered list of parameters. Order and duplicate names are kept; a parameter with an
empty value stands as its bare name, which is how the agent expects a switch.
-/

namespace Tenure

/-- The parameters of a request, in order. -/
structure Query where
  params : List (String × String) := []
deriving DecidableEq

namespace Query

/-- No parameters. -/
def empty : Query := {}

instance : Inhabited Query := ⟨empty⟩

/-- The query of a list of parameters. -/
def ofList (params : List (String × String)) : Query := ⟨params⟩

/-- Appends one parameter. -/
def push (q : Query) (name value : String) : Query := ⟨q.params ++ [(name, value)]⟩

/-- Appends several parameters. -/
def append (q : Query) (params : List (String × String)) : Query := ⟨q.params ++ params⟩

/-- The number of parameters. -/
def size (q : Query) : Nat := q.params.length

/-- Whether there are no parameters. -/
def isEmpty (q : Query) : Bool := q.params.isEmpty

/-- The value of the last parameter of a name. -/
def get? (q : Query) (name : String) : Option String :=
  (q.params.reverse.find? (·.1 == name)).map (·.2)

/-- The query as it stands behind the question mark. -/
def render (q : Query) : String := String.ofList (Url.Form.encodePairs q.params)

@[simp] theorem params_push (q : Query) (name value : String) :
    (q.push name value).params = q.params ++ [(name, value)] := rfl

@[simp] theorem params_append (q : Query) (params : List (String × String)) :
    (q.append params).params = q.params ++ params := rfl

end Query

end Tenure
