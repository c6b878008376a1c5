import MarketFeed.Credential
import MarketFeed.Endpoint.Template
import MarketFeed.Text.Percent
/-!
Addresses of requests. The identifiers, percent-encoded and with commas between them, are put for the
placeholder; the part behind the first question mark is read as query pairs; each fixed parameter
replaces the first pair of its name or is added; the key of the credential comes last.
-/

set_option autoImplicit false
set_option relaxedAutoImplicit false

namespace MarketFeed.Endpoint

abbrev QueryPair := List Char × List Char

/-- The pairs of a query: stretches between ampersands, each cut at its first equals sign; empty
stretches are left out. -/
def queryPairs (query : List Char) : List QueryPair :=
  ((Text.pieces '&' query).filter fun piece => !piece.isEmpty).map fun piece =>
    (Text.splitOnce '=' piece).getD (piece, [])

def cutQuery (s : List Char) : List Char × Option (List Char) :=
  match Text.splitOnce '?' s with
  | some (path, query) => (path, some query)
  | none => (s, none)

/-- Gives the first pair of that name another value, or adds a pair. -/
def overridePair (name value : List Char) : List QueryPair → List QueryPair
  | [] => [(name, value)]
  | (k, v) :: rest =>
    if k = name then (k, value) :: rest else (k, v) :: overridePair name value rest

def writePair (p : QueryPair) : List Char := p.1 ++ '=' :: p.2

/-- A base and a path with exactly one slash between them; the base alone if the path has nothing but
slashes. -/
def joinUrl (base path : List Char) : List Char :=
  let base := (base.reverse.dropWhile (· == '/')).reverse
  let path := path.dropWhile (· == '/')
  if path.isEmpty then base else base ++ '/' :: path

def encodeText (s : String) : List Char := Text.Percent.encode s.toList

def joinIds (ids : List String) : List Char := Text.joinWith [','] (ids.map encodeText)

/-- An endpoint whose path is accepted. -/
structure Locator where
  endpoint : Endpoint
  template : Template
  deriving DecidableEq

namespace Locator

def ofEndpoint (e : Endpoint) : Except FetchError Locator :=
  (Template.parse e.path e.mode).map fun t => ⟨e, t⟩

def mode (l : Locator) : Mode := l.template.mode

def baseFor (l : Locator) : Option Credential → String
  | some ⟨_, .paid⟩ => l.endpoint.proBaseUrl
  | _ => l.endpoint.baseUrl

/-- The name under which the key of a credential is sent, if it has one. -/
def keyParamFor (l : Locator) : Credential.Kind → Option String
  | .paid => some l.endpoint.paidKeyParam
  | .demo => some l.endpoint.demoKeyParam
  | .anonymous => none

def keyPairs (l : Locator) : Option Credential → List QueryPair
  | none => []
  | some c =>
    match l.keyParamFor c.kind with
    | none => []
    | some name => [(encodeText name, encodeText c.secret)]

def withParams (l : Locator) (pairs : List QueryPair) : List QueryPair :=
  l.endpoint.queryParams.entries.foldl
    (fun acc p => overridePair (encodeText p.1) (encodeText p.2) acc) pairs

/-- The path and the query pairs of the address for some identifiers already encoded. -/
def parts (l : Locator) (sub : List Char) (credential : Option Credential) :
    List Char × List QueryPair :=
  let cut := cutQuery (Text.replace l.mode.placeholder.toList sub l.template.raw.toList)
  let pairs := (cut.2.map queryPairs).getD []
  (cut.1, l.withParams pairs ++ l.keyPairs credential)

def render (l : Locator) (sub : List Char) (credential : Option Credential) : String :=
  let p := l.parts sub credential
  let url := joinUrl (l.baseFor credential).toList p.1
  if p.2.isEmpty then String.ofList url
  else String.ofList (url ++ '?' :: Text.joinWith ['&'] (p.2.map writePair))

def require (l : Locator) (mode : Mode) : Except FetchError Unit :=
  if l.mode = mode then .ok ()
  else .error ((TemplateFault.lacks mode).toError l.template.raw)

def singleUrl (l : Locator) (id : String) (credential : Option Credential) :
    Except FetchError String := do
  l.require .single
  return l.render (encodeText id) credential

def batchUrl (l : Locator) (ids : List String) (credential : Option Credential) :
    Except FetchError String := do
  l.require .batch
  return l.render (joinIds ids) credential

def url (l : Locator) (ids : List String) (credential : Option Credential) :
    Except FetchError String :=
  match l.mode, ids with
  | .batch, ids => l.batchUrl ids credential
  | .single, [id] => l.singleUrl id credential
  | .single, ids => .error ((TemplateFault.idCount ids.length).toError l.template.raw)

def intervalParam : String := "interval"

/-- The granularity asked for: the fixed parameter, otherwise the first such pair of the path. -/
def interval? (l : Locator) : Option (List Char) :=
  match l.endpoint.queryParams.get? intervalParam with
  | some value => some value.toList
  | none =>
    let pairs := ((cutQuery l.template.raw.toList).2.map queryPairs).getD []
    (pairs.find? fun p => p.1 == intervalParam.toList).map Prod.snd

/-- Whether data finer than daily is asked for. -/
def isFine (l : Locator) : Bool :=
  match l.interval? with
  | none => false
  | some value => !value.isEmpty && value.map Char.toLower != "daily".toList

end Locator

end MarketFeed.Endpoint
