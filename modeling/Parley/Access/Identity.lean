import Parley.Access.Token
import Parley.Config
import Parley.Text.Blank

/-!
Who makes a request. With a token key configured, the first valid access token among the
authorization header, the cookies and the query names the person. Without one, an upgrade names the
person itself, and presents the upgrade secret where one is configured.
-/

namespace Parley

/-- Header lines in the order of the request, names in any case, values as bytes. -/
abbrev Headers := List (String × Bytes)

/-- The letters of the alphabet without accents in lower case. -/
def lowerName (s : String) : String := String.ofList (s.toList.map Char.toLower)

def Headers.all (hs : Headers) (name : String) : List Bytes :=
  (hs.filter fun (n, _) => lowerName n == name).map (·.2)

/-- The text of a value of visible characters, blanks and tabs alone. -/
def readable? (value : Bytes) : Option (List Char) :=
  if value.all fun b => b == 9 || (32 ≤ b && b < 127) then some (value.map fun b => Char.ofNat b.toNat) else none

namespace Identity

inductive Fault where
  | invalidToken
  | missingUserId
  | badSecret
  | notConfigured
deriving DecidableEq, Repr

def Fault.message : Fault → String
  | .invalidToken => "missing or invalid token"
  | .missingUserId => "user_id required"
  | .badSecret => "invalid upgrade secret"
  | .notConfigured => "token authentication is not configured"

/-- The scheme of the authorization header, with the blank after it. -/
def bearerScheme : List Char := "Bearer ".toList

def bearer (hs : Headers) : Option String := do
  let value ← readable? (← (hs.all "authorization").head?)
  guard (bearerScheme.isPrefixOf value)
  let token := Text.trimChars (value.drop bearerScheme.length)
  guard !token.isEmpty
  return String.ofList token

/-- The name and the value of a cookie, split where the first equals sign stands. -/
def cookiePair (cs : List Char) : Option (List Char × List Char) :=
  let pair := Text.trimChars cs
  if pair.contains '=' then some (pair.takeWhile (· != '='), (pair.dropWhile (· != '=')).drop 1) else none

/-- The first value that is not empty among the cookies of a name. -/
def cookie (hs : Headers) (name : String) : Option String :=
  let pairs := ((hs.all "cookie").filterMap readable?).flatMap fun v => (v.splitOnP (· == ';')).filterMap cookiePair
  (pairs.find? fun (n, v) => n == name.toList && !v.isEmpty).map fun (_, v) => String.ofList v

def tokenCookie : String := "access_token"

def candidates (hs : Headers) (queryToken : Option String) : List String :=
  [bearer hs, cookie hs tokenCookie, queryToken].filterMap id

def ofRequest (now : Nat) (config : Config) (hs : Headers) (queryToken : Option String) :
    Except Fault String :=
  match config.jwtSecret with
  | none => .error .notConfigured
  | some secret =>
    match (candidates hs queryToken).findSome? (Token.verify now secret) with
    | some user => .ok user
    | none => .error .invalidToken

def ofUpgrade (now : Nat) (config : Config) (hs : Headers) (queryToken queryUser : Option String) :
    Except Fault String :=
  if config.jwtSecret.isSome then ofRequest now config hs queryToken
  else
    let presented := (bearer hs).or queryToken
    if config.wsSecret.isSome && presented != config.wsSecret then .error .badSecret
    else match queryUser.filter (· != "") with
      | some user => .ok user
      | none => .error .missingUserId

end Identity

end Parley
