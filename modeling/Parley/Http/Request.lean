import Parley.Access.Identity
import Parley.Http.MediaType
import Parley.Http.Query
import Parley.Http.Response
import Parley.Json.Record

/-!
Requests, and what is read from them: the query, and a body of JSON that must be announced as such
and be no longer than two mebibytes.
-/

namespace Parley.Http

structure Request where
  method : String := "GET"
  path : String := "/"
  query : Query.Pairs := []
  headers : Headers := []
  body : Bytes := []
deriving Repr, Inhabited

namespace Request

/-- The path of an address and its query, which ends where a fragment begins. -/
def splitAddress (address : String) : String × String :=
  let cs := address.toList.takeWhile (· != '#')
  (String.ofList (cs.takeWhile (· != '?')), String.ofList ((cs.dropWhile (· != '?')).drop 1))

def ofAddress (method address : String) (headers : Headers) (body : Bytes) : Request :=
  let (path, query) := splitAddress address
  { method, path, query := Query.pairs query, headers, body }

/-- A refusal before any route has looked at the request. -/
def refused (status : Nat) : Response := ⟨status, .refusal⟩

/-- The query with these names known: none of them may come twice. -/
def known (r : Request) (names : List String) : Except Response Query.Pairs :=
  if Query.once names r.query then .ok r.query else .error (refused 400)

def announcesJson (r : Request) : Bool :=
  match (r.headers.all "content-type").head? with
  | none => false
  | some value => (((readable? value).bind MediaType.parse?).map MediaType.isJson).getD false

def maxBody : Nat := 2 * 1024 * 1024

def readFields (r : Request) (fields : List Json.Field) : Except Response Json.Record.Fields :=
  if !r.announcesJson then .error (refused 415)
  else if maxBody < r.body.length then .error (refused 413)
  else match Json.Record.read fields r.body with
    | .ok found => .ok found
    | .error .mismatched => .error (refused 422)
    | .error _ => .error (refused 400)

/-- The person that the request's access token names. -/
def requester (r : Request) (now : Nat) (config : Config) : Except Response String :=
  let token := if Query.once ["token"] r.query then r.query.lookup "token" else none
  match Identity.ofRequest now config r.headers token with
  | .ok user => .ok user
  | .error fault => .error (Problem.unauthorized fault.message).response

end Request

end Parley.Http
