import Evok.Changes.Bulk
import Mathlib.Data.Rat.Defs

/-!
# The access of a request

`auth.py`: the token sent by a request, the access it gives and `TokenAuth.prepare`, which Tornado
calls before the method of a handler. The requests are as Tornado and `json.loads` parse them.

## Main definitions

* `Json`: the values of requests and responses.
* `Request`, `Handler`, `Method`: a request with the handler of its route.
* `Tokens`: the tokens of the configuration.
* `Request.access`: the access of the token of a request.
* `Request.prepare`: whether the method of the handler is reached, and with which access.
-/

namespace Evok

namespace Api

/-! ## Values -/

/-- The values of JSON; `nonFinite` are NaN and the infinities of `json.loads`. -/
inductive Json
  | null
  | bool (b : Bool)
  | num (value : ℚ)
  | nonFinite (text : String)
  | str (s : String)
  | arr (items : List Json)
  | obj (fields : List (String × Json))

/-- `value.get(key)` of an object, the last one of equal keys. -/
def Json.field (fields : List (String × Json)) (key : String) : Option Json :=
  (fields.reverse.find? fun field => field.1 = key).map (·.2)

/-- The object of a dictionary. -/
def Json.ofDict (d : Dict String Json) : Json :=
  .obj d.items

/-- The white space of `strip()`. -/
def isSpace (c : Char) : Bool :=
  (9 ≤ c.toNat && c.toNat ≤ 13) || (28 ≤ c.toNat && c.toNat ≤ 32) || c.toNat = 0x85 ||
    c.toNat = 0xa0 || c.toNat = 0x1680 || (0x2000 ≤ c.toNat && c.toNat ≤ 0x200a) ||
    c.toNat = 0x2028 || c.toNat = 0x2029 || c.toNat = 0x202f || c.toNat = 0x205f ||
    c.toNat = 0x3000

/-- `strip()`. -/
def strip (text : List Char) : List Char :=
  ((text.dropWhile isSpace).reverse.dropWhile isSpace).reverse

/-- `lower()`, the comparisons are with ASCII texts. -/
def lower (text : List Char) : List Char :=
  text.map Char.toLower

/-- `partition()`: the texts before and after the first separator. -/
def partition (separator : Char) (text : List Char) : List Char × List Char :=
  (text.takeWhile (· ≠ separator), (text.dropWhile (· ≠ separator)).drop 1)

/-- The value of a digit of base64. -/
def b64digit (c : Char) : Option ℕ :=
  if 'A' ≤ c ∧ c ≤ 'Z' then some (c.toNat - 'A'.toNat)
  else if 'a' ≤ c ∧ c ≤ 'z' then some (c.toNat - 'a'.toNat + 26)
  else if '0' ≤ c ∧ c ≤ '9' then some (c.toNat - '0'.toNat + 52)
  else if c = '+' then some 62
  else if c = '/' then some 63
  else none

/-- `base64.b64decode(text, validate=True)`, `none` is `binascii.Error`. -/
def b64decode : List Char → Option (List UInt8)
  | [] => some []
  | [a, b, '=', '='] => do
    let a ← b64digit a
    let b ← b64digit b
    return [.ofNat (a * 4 + b / 16)]
  | [a, b, c, '='] => do
    let a ← b64digit a
    let b ← b64digit b
    let c ← b64digit c
    return [.ofNat (a * 4 + b / 16), .ofNat (b % 16 * 16 + c / 4)]
  | a :: b :: c :: d :: rest => do
    let a ← b64digit a
    let b ← b64digit b
    let c ← b64digit c
    let d ← b64digit d
    let bytes ← b64decode rest
    return .ofNat (a * 4 + b / 16) :: .ofNat (b % 16 * 16 + c / 4) :: .ofNat (c % 4 * 64 + d) :: bytes
  | _ => none

/-! ## Requests -/

/-- The methods of Tornado. -/
inductive Method
  | get
  | head
  | post
  | delete
  | patch
  | put
  | options
  deriving DecidableEq

/-- The path of a request of `/rest` or `/json`. -/
structure Path where
  dev : String
  circuit : String
  prop : Option String := none

/-- The handlers of the routes. -/
inductive Handler
  | loadAll
  | rest (path : Path)
  | json (path : Path)
  | bulk
  | version
  | log
  | rpc
  | ws

/-- The body of a request: `json` is `json.loads(body)` or its error, `form` the first values of
its arguments or the error of their decoding. -/
structure Body where
  isBlank : Bool := true
  startsWithBrace : Bool := false
  json : Except String Json
  form : Except String (List (String × String)) := .ok []

structure Request where
  handler : Handler
  method : Method
  /-- The header Authorization, empty without it. -/
  authorization : List Char := []
  /-- The values of the query argument token. -/
  queryTokens : List String := []
  /-- The header Content-Type, empty without it. -/
  contentType : String := ""
  body : Body
  /-- The query argument lines. -/
  lines : Option String := none
  /-- The outcome of `check_origin` for the header Origin of a WebSocket. -/
  allowedOrigin : Bool := true

/-! ## Tokens -/

inductive Access
  | write
  | read
  deriving DecidableEq

/-- `_token` and `_read_token`. -/
structure Tokens where
  token : Option String := none
  readToken : Option String := none

/-- `set_token`: the tokens, or `ValueError`. -/
def Tokens.set (token readToken : Option String) : Except String Tokens :=
  if token.any fun t => strip t.toList = [] then
    .error "apis: 'token' must be a non-empty string"
  else if readToken.any fun t => strip t.toList = [] then
    .error "apis: 'read_token' must be a non-empty string"
  else if readToken.isSome && token.isNone then
    .error "apis: 'read_token' requires 'token'"
  else if readToken.isSome && readToken = token then
    .error "apis: 'read_token' must differ from 'token'"
  else .ok { token := token, readToken := readToken }

/-- `query_token` of the handler. -/
def Handler.queryToken : Handler → Bool
  | .ws => true
  | _ => false

/-- `auth_exempt` of the handler. -/
def Handler.authExempt : Handler → Bool
  | .version => true
  | _ => false

/-- `SUPPORTED_METHODS` of the handler. -/
def Handler.supports : Handler → Method → Bool
  | .loadAll, method => method = .get || method = .options
  | _, _ => true

namespace Request

/-- `_request_token`; a text of base64 which is not ASCII raises `ValueError`. -/
def requestToken (req : Request) : Except String (Option String) :=
  let (scheme, value) := partition ' ' req.authorization
  if lower scheme = "bearer".toList then .ok (some (String.ofList (strip value)))
  else if lower scheme = "basic".toList then
    if (strip value).any fun c => 128 ≤ c.toNat then
      .error "string argument should contain only ASCII characters"
    else
      match (b64decode (strip value)).bind fun bytes => String.fromUTF8? ⟨bytes.toArray⟩ with
      | none => .ok none
      | some credentials => .ok (some (String.ofList (partition ':' credentials.toList).2))
  else if req.handler.queryToken then .ok req.queryTokens.getLast?
  else .ok none

/-- `access`: the access of the token, `none` without a valid one. -/
def access (tokens : Tokens) (req : Request) : Except String (Option Access) :=
  if tokens.token.isNone then .ok (some .write)
  else
    req.requestToken.map fun token =>
      token.bind fun token =>
        if tokens.token = some token then some .write
        else if tokens.readToken = some token then some .read
        else none

/-- What `prepare` does: go on with an access, which is `WRITE` where it is not checked, finish the
response, or raise. -/
inductive Prepared
  | proceed (access : Access)
  | unauthorized
  | raised (message : String)

/-- `TokenAuth.prepare`. -/
def prepare (tokens : Tokens) (req : Request) : Prepared :=
  if req.handler.authExempt || req.method = .options then .proceed .write
  else
    match req.access tokens with
    | .error message => .raised message
    | .ok none => .unauthorized
    | .ok (some access) => .proceed access

end Request

end Api

end Evok
