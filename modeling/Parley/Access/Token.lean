import Parley.Digest.Sha256
import Parley.Json.Printer
import Parley.Json.Record
import Parley.Text.Base64Url

/-!
Access tokens: a header, the claims and an authentication code, each in letters, with dots between
them. A token is good when its code is that of its own first two parts under the secret, its header
names that method, and its claims name a person and have not run out.

Main definition: `Token.verify`, the person of a good token.
-/

namespace Parley.Token

open Json (Field FieldKind)

def segments (cs : List Char) : List (List Char) := cs.splitOnP (· == '.')

/-! ### Header -/

/-- The one method of authentication that is accepted. -/
def method : String := "HS256"

/-- Header members that hold a text or nothing. -/
def textMembers : List String := ["typ", "cty", "jku", "kid", "x5u", "x5t", "x5t#S256", "enc", "zip", "url", "nonce"]

/-- Header members that hold a list of texts or nothing. -/
def listMembers : List String := ["x5c", "crit"]

def isText : Json → Bool
  | .string _ => true
  | _ => false

/-- Whether a member of a header has a value that it may have. Members without a meaning are texts. -/
def memberOk (name : String) (v : Json) : Bool :=
  if name == "alg" then
    match v with
    | .string m => m == method
    | .object [(m, .null)] => m == method
    | _ => false
  else if textMembers.contains name then
    match v with
    | .null => true
    | v => isText v
  else if listMembers.contains name then
    match v with
    | .null => true
    | .array xs => xs.all isText
    | _ => false
  else if name == "jwk" then
    match v with
    | .null | .object _ => true
    | _ => false
  else isText v

/-- The members that may stand in a header only once. -/
def singleMembers : List String := ["alg", "jwk"] ++ textMembers ++ listMembers

def headerOk (raw : Bytes) : Bool :=
  match Json.parse raw with
  | .ok (.object ms) =>
    ms.any (·.1 == "alg") && ms.all (fun (n, v) => memberOk n v) &&
      singleMembers.all fun n => (ms.filter (·.1 == n)).length ≤ 1
  | _ => false

/-! ### Claims -/

structure Claims where
  subject : String
  /-- The second, counted from 1970, at which the token runs out. -/
  expiry : Nat
deriving DecidableEq, Repr

/-- The claims that the person and the time are taken from. -/
def claimFields : List Field := [⟨"sub", .text, false⟩, ⟨"exp", .count, false⟩]

/-- The claims that are checked beside them. -/
def checkedFields : List Field := [⟨"aud", .any, true⟩, ⟨"nbf", .any, true⟩, ⟨"iss", .any, true⟩]

/-- Whether a value names receivers: one text, or a list of texts. -/
def namesReceivers : Json → Bool
  | .string _ => true
  | .array xs => xs.all isText
  | _ => false

/-- Whether a value is a bracket with something in it. -/
def isFilled : Json → Bool
  | .array xs => !xs.isEmpty
  | .object ms => !ms.isEmpty
  | _ => false

/-- The claims of a token that is meant for nobody in particular. -/
def claims? (raw : Bytes) : Option Claims := do
  let main ← (Json.Record.read claimFields raw).toOption
  let checked ← (Json.Record.readObject checkedFields raw).toOption
  guard !((checked.json? "aud").any namesReceivers)
  guard !((checked.json? "nbf").any isFilled)
  return { subject := ← main.text? "sub", expiry := ← main.count? "exp" }

/-! ### Verification -/

/-- How many seconds after its end a token is still good. -/
def leeway : Nat := 60

/-- The authentication code of the first two parts, in letters with the dot between them. -/
def code (secret : String) (header claims : List Char) : Bytes :=
  Digest.hmacSha256 (Text.Utf8.encode secret) (Text.Utf8.encode (String.ofList (header ++ '.' :: claims)))

/-- The person named by a good token at the second `now`. -/
def verify (now : Nat) (secret token : String) : Option String :=
  match segments token.toList with
  | [header, claims, signature] => do
    guard (headerOk (← Text.Base64Url.decode? header))
    guard ((← Text.Base64Url.decode? signature) == code secret header claims)
    let c ← claims? (← Text.Base64Url.decode? claims)
    guard (now ≤ c.expiry + leeway && c.subject != "")
    return c.subject
  | _ => none

/-- A token of this method for a person, in the plainest form. -/
def issue (secret : String) (c : Claims) : String :=
  let part (ms : List (String × Json)) : List Char :=
    Text.Base64Url.encode (Text.Utf8.encode (Json.print (.object ms)))
  let header := part [("typ", .string "JWT"), ("alg", .string method)]
  let claims := part [("sub", .string c.subject), ("exp", .number (.int c.expiry))]
  String.ofList (header ++ '.' :: claims ++ '.' :: Text.Base64Url.encode (code secret header claims))

end Parley.Token
