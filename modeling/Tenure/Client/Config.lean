import Tenure.Client.Address

/-!
# Client configuration

Where the agent is, for which datacenter requests are made, and how connections are
kept. The defaults are tuned for an agent on the same machine. `ClientConfig.ofEnvironment`
takes what the environment sets and ignores a variable that is blank.
-/

namespace Tenure

/-- The variables that are set, by name. -/
abbrev Environment := List (String × String)

/-- The value of a variable. -/
def Environment.get? (env : Environment) (name : String) : Option String := env.lookup name

/-- The configuration of a client. -/
structure ClientConfig where
  address : String := defaultAddress
  /-- sent with every request; the program's own when none -/
  userAgent : Option String := none
  /-- the datacenter requests are made for; the agent's own when none -/
  datacenter : Option String := none
  connectTimeout : Duration := .ofSecs 5
  poolIdleTimeout : Duration := .ofSecs 90
  poolMaxIdlePerHost : Nat := 2
deriving DecidableEq

namespace ClientConfig

/-- A variable that is set to more than blanks. -/
def meaningful (env : Environment) (name : String) : Option String :=
  (env.get? name).filter (!Text.isBlankText ·)

/-- The configuration that the environment asks for. -/
def ofEnvironment (env : Environment) : ClientConfig :=
  { address := (meaningful env "CONSUL_HTTP_ADDR").getD defaultAddress
    datacenter := meaningful env "CONSUL_DATACENTER"
    userAgent := meaningful env "CONSULATE_USER_AGENT" }

/-- The user agent of a program that sets none. -/
def defaultUserAgent (program : String) : String := program ++ " (consulate)"

/-- The user agent: the configured one unless it is empty. -/
def effectiveUserAgent (c : ClientConfig) (program : String) : String :=
  (c.userAgent.filter (· != "")).getD (defaultUserAgent program)

end ClientConfig

end Tenure
