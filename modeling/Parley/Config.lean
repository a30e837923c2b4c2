import Parley.Text.Utf8

/-!
Settings of the service, read from an environment of named values, and the address of the broker
that they give.
-/

namespace Parley

structure Config where
  databaseUrl : String := ""
  /-- The address of the broker, with or without its scheme. -/
  redisAddr : String := "localhost:6379"
  redisPassword : Option String := none
  /-- A secret that upgrades must present. -/
  wsSecret : Option String := none
  /-- The key of access tokens. -/
  jwtSecret : Option String := none
  port : Nat := 8080
deriving DecidableEq, Repr, Inhabited

namespace Config

/-- A setting that must be there is missing. -/
inductive Fault where
  | required (name : String)
deriving DecidableEq, Repr

def Fault.message : Fault → String
  | .required name => name ++ " env var is required"

abbrev Environment := String → Option Bytes

def textVar (env : Environment) (name : String) : Option String := env name >>= Text.Utf8.decode?

def optionalVar (env : Environment) (name : String) : Option String :=
  (textVar env name).filter (· != "")

/-- The number of digits, a plus sign before them allowed. -/
def decimal? (cs : List Char) : Option Nat :=
  let ds := match cs with
    | '+' :: rest => rest
    | cs => cs
  if ds.isEmpty || !ds.all (fun c => '0' ≤ c && c ≤ '9') then none
  else some (ds.foldl (fun n c => n * 10 + (c.toNat - 48)) 0)

/-- A port: a number of sixteen bits. -/
def port? (s : String) : Option Nat := (decimal? s.toList).filter (· < 65536)

def ofEnvironment (env : Environment) : Except Fault Config :=
  match textVar env "DATABASE_URL" with
  | none => .error (.required "DATABASE_URL")
  | some databaseUrl =>
    .ok {
      databaseUrl
      redisAddr := (optionalVar env "REDIS_ADDR").getD "localhost:6379"
      redisPassword := optionalVar env "REDIS_PASSWORD"
      wsSecret := optionalVar env "WS_SECRET"
      jwtSecret := optionalVar env "JWT_SECRET"
      port := ((textVar env "PORT").bind port?).getD 8080 }

def scheme : List Char := "redis://".toList

def stripScheme (addr : List Char) : List Char :=
  if scheme.isPrefixOf addr then addr.drop scheme.length else addr

/-- The address of the broker with its scheme, and with the password unless it names a user. -/
def redisUrl (c : Config) : String :=
  let addr := stripScheme c.redisAddr.toList
  match c.redisPassword with
  | some password =>
    if addr.contains '@' then String.ofList (scheme ++ addr)
    else String.ofList (scheme ++ ':' :: password.toList ++ '@' :: addr)
  | none => String.ofList (scheme ++ addr)

end Config

end Parley
