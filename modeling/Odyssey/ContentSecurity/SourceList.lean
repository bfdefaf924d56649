import Odyssey.Cookies.CookieUtil
import Odyssey.URLs.Characters

namespace Odyssey.ContentSecurity

open Cookies URLs

variable (character : Nat)

def isASCIISpace : Bool :=
  character ≤ ' '.toNat && (character == ' '.toNat || (character ≤ 0xD && character ≥ 0x9))

def isASCIIAlphanumeric : Bool := isASCIIDigit character || isASCIIAlpha character

def isHostCharacter : Bool := isASCIIAlphanumeric character || character == '-'.toNat

def isPathComponentCharacter : Bool :=
  character != '?'.toNat && character != '#'.toNat

def isSchemeContinuationCharacter : Bool :=
  isASCIIAlphanumeric character || character ∈ text "+-."

def isNotColonOrSlash : Bool := character != ':'.toNat && character != '/'.toNat

def isNonceCharacter : Bool := isASCIIAlphanumeric character || character ∈ text "+/-_="

/-- The letters of the second are compared without the bit 0x20 of the first. -/
def equalLettersIgnoringASCIICase (first second : Chars) : Bool := first.map toASCIILowerUnchecked == second

def endsWithIgnoringASCIICase (string tail : Chars) : Bool :=
  tail.length ≤ string.length && equalIgnoringASCIICase (string.drop (string.length - tail.length)) tail

/-- What the accessors of a `URL` answer. -/
structure RequestURL where
  isValid : Bool
  protocolIsInHTTPFamily : Bool
  protocol : Chars
  host : Chars
  port : Option Nat
  path : Chars

def RequestURL.protocolIs (url : RequestURL) (protocol : String) : Bool :=
  url.isValid && url.protocol.map toASCIILowerUnchecked == text protocol

def isDefaultPortForProtocol (port : Nat) (protocol : Chars) : Bool :=
  defaultPortForProtocol protocol == some port

/-- The origin of the policy and its setting for stars, and what is not part of it:
    `decodeURLEscapeSequences`, and `parseCryptographicDigest` with the size of a digest and what
    follows it. -/
structure Policy where
  selfSourceProtocol : Chars
  selfHost : Chars
  selfPort : Option Nat
  sourceStarMatchesAnyProtocol : Bool
  decodeURLEscapeSequences : Chars → Chars
  parseCryptographicDigest : Chars → Option (Nat × Chars)

def Policy.protocolMatchesSelf (policy : Policy) (url : RequestURL) : Bool :=
  if equalLettersIgnoringASCIICase policy.selfSourceProtocol (text "http") then url.protocolIsInHTTPFamily
  else equalIgnoringASCIICase url.protocol policy.selfSourceProtocol

/-- A `ContentSecurityPolicySource`; an empty string is null. -/
structure Source where
  scheme : Chars := []
  host : Chars := []
  port : Option Nat := none
  path : Chars := []
  hostHasWildcard : Bool := false
  portHasWildcard : Bool := false
  deriving DecidableEq

namespace Source

def schemeMatches (policy : Policy) (source : Source) (url : RequestURL) : Bool :=
  if source.scheme.isEmpty then policy.protocolMatchesSelf url
  else if equalLettersIgnoringASCIICase source.scheme (text "http") then url.protocolIsInHTTPFamily
  else equalIgnoringASCIICase url.protocol source.scheme

def wildcardMatches (host hostWithWildcard : Chars) : Bool :=
  endsWithIgnoringASCIICase host hostWithWildcard && host.length > hostWithWildcard.length &&
    host[host.length - hostWithWildcard.length - 1]? == some '.'.toNat

def hostMatches (source : Source) (url : RequestURL) : Bool :=
  equalIgnoringASCIICase url.host source.host ||
    (source.hostHasWildcard && wildcardMatches url.host source.host)

def pathMatches (policy : Policy) (source : Source) (url : RequestURL) : Bool :=
  if source.path.isEmpty then true
  else
    let path := policy.decodeURLEscapeSequences url.path
    if source.path.getLast? == some '/'.toNat then source.path.isPrefixOf path
    else path == source.path

def portMatches (source : Source) (url : RequestURL) : Bool :=
  if source.portHasWildcard then true
  else if url.port == source.port then true
  else if source.port.any (isDefaultPortForProtocol · (text "http")) &&
      ((url.port.isNone && url.protocolIs "https") ||
        url.port.any (isDefaultPortForProtocol · (text "https"))) then true
  else match url.port, source.port with
    | none, some port => isDefaultPortForProtocol port url.protocol
    | some port, none => isDefaultPortForProtocol port url.protocol
    | _, _ => false

def isSchemeOnly (source : Source) : Bool := source.host.isEmpty

variable (policy : Policy)

def «matches» (source : Source) (url : RequestURL) (didReceiveRedirectResponse : Bool) : Bool :=
  if !source.schemeMatches policy url then false
  else if source.isSchemeOnly then true
  else source.hostMatches url && source.portMatches url &&
    (didReceiveRedirectResponse || source.pathMatches policy url)

end Source

variable (policy : Policy)

def Policy.selfSource : Source :=
  ⟨policy.selfSourceProtocol, policy.selfHost, policy.selfPort, [], false, false⟩

def Policy.urlMatchesSelf (url : RequestURL) : Bool :=
  policy.selfSource.matches policy url false

def parseScheme (name : Chars) : Option Chars :=
  match name with
  | [] => none
  | first :: rest => if isASCIIAlpha first && rest.all isSchemeContinuationCharacter then some name else none

/-- The loop over the labels of a host; the flag is set where a label begins. -/
def hostLabels : Bool → Chars → Bool
  | _, [] => true
  | start, first :: rest =>
    if isHostCharacter first then hostLabels false rest
    else !start && first == '.'.toNat && hostLabels true rest

def parseHost (name : Chars) : Option (Chars × Bool) :=
  match name with
  | [] => none
  | first :: rest =>
    if first = '*'.toNat then
      match rest with
      | [] => some ([], true)
      | second :: labels => if second = '.'.toNat ∧ hostLabels true labels then some (labels, true) else none
    else if hostLabels true name then some (name, false)
    else none

def parsePath (path : Chars) : Chars :=
  policy.decodeURLEscapeSequences (path.takeWhile isPathComponentCharacter)

def decimal (digits : Chars) : Nat := digits.foldl (fun value digit => value * 10 + (digit - '0'.toNat)) 0

/-- The port after a colon, and whether it is a wildcard. `charactersToIntStrict` fails for what is no int. -/
def parsePort (port : Chars) : Option (Option Nat × Bool) :=
  if port.isEmpty then none
  else if port = text "*" then some (none, true)
  else if port.all isASCIIDigit && decimal port ≤ 65535 then some (some (decimal port), false)
  else none

def splitAuthority (string : Chars) : Chars × Chars × Chars :=
  let rest := string.dropWhile isNotColonOrSlash
  (string.takeWhile isNotColonOrSlash,
    if rest.head? = some ':'.toNat then (rest.takeWhile (· != '/'.toNat), rest.dropWhile (· != '/'.toNat))
    else ([], rest))

/-- The part of `parseSource` from the beginning of the host on. -/
def parseAuthority (scheme string : Chars) : Option Source :=
  let (name, port, path) := splitAuthority string
  if !path.isEmpty && name.isEmpty && port.isEmpty then none
  else (parseHost name).bind fun host =>
    (if port.isEmpty then some (none, false) else parsePort port.tail).map fun number =>
      ⟨scheme, host.1, number.1, if path.isEmpty then [] else parsePath policy path, host.2, number.2⟩

variable (string : Chars)

def parseSchemeOrHost : Option Source :=
  let name := string.takeWhile isNotColonOrSlash
  match string.dropWhile isNotColonOrSlash with
  | [] => (parseHost name).map fun host => ⟨[], host.1, none, [], host.2, false⟩
  | mark :: rest =>
    if mark = '/'.toNat then
      (parseHost name).map fun host => ⟨[], host.1, none, parsePath policy (mark :: rest), host.2, false⟩
    else if rest.isEmpty then (parseScheme name).map fun scheme => ⟨scheme, [], none, [], false, false⟩
    else if rest.head? = some '/'.toNat then
      (parseScheme name).bind fun scheme =>
        match rest.tail with
        | [] => none
        | second :: rest =>
          if second = '/'.toNat && !rest.isEmpty then parseAuthority policy scheme rest else none
    else parseAuthority policy [] string

inductive Parsed where
  | star
  | self
  | unsafeInline
  | unsafeEval
  | source (source : Source)

def parseSource : Option Parsed :=
  if string.isEmpty then none
  else if equalLettersIgnoringASCIICase string (text "'none'") then none
  else if string = text "*" then some .star
  else if equalLettersIgnoringASCIICase string (text "'self'") then some .self
  else if equalLettersIgnoringASCIICase string (text "'unsafe-inline'") then some .unsafeInline
  else if equalLettersIgnoringASCIICase string (text "'unsafe-eval'") then some .unsafeEval
  else (parseSchemeOrHost policy string).map .source

/-- Whether the expression is taken for a nonce, which no URL is compared with. -/
def parseNonceSource : Bool :=
  let value := (string.drop 7).takeWhile isNonceCharacter
  equalIgnoringASCIICase (string.take 7) (text "'nonce-") && !value.isEmpty &&
    (string.drop (7 + value.length)).head? == some '\''.toNat

/-- Whether the expression is taken for a hash, which no URL is compared with. -/
def parseHashSource : Bool :=
  string.head? == some '\''.toNat && (policy.parseCryptographicDigest string.tail).any fun digest =>
    digest.2.head? == some '\''.toNat && digest.1 ≤ 64

structure SourceList where
  list : List Source := []
  allowSelf : Bool := false
  allowStar : Bool := false
  allowInline : Bool := false
  allowEval : Bool := false
  isNone : Bool := false

namespace SourceList

def expressions (value : Chars) : List Chars := (value.splitOnP isASCIISpace).filter (!·.isEmpty)

def isSourceListNone (value : Chars) : Bool :=
  match expressions value with
  | [string] => equalLettersIgnoringASCIICase string (text "'none'")
  | _ => false

def addSource (list : SourceList) (string : Chars) : SourceList :=
  if parseNonceSource string || parseHashSource policy string then list
  else match parseSource policy string with
    | none => list
    | some .star => { list with allowStar := true }
    | some .self => { list with allowSelf := true }
    | some .unsafeInline => { list with allowInline := true }
    | some .unsafeEval => { list with allowEval := true }
    | some (.source source) =>
      if source.scheme.isEmpty && source.host.isEmpty then list
      else { list with list := list.list ++ [source] }

def parse (value : Chars) : SourceList :=
  if isSourceListNone value then { isNone := true }
  else (expressions value).foldl (addSource policy) {}

def isProtocolAllowedByStar (directiveName : Chars) (url : RequestURL) : Bool :=
  policy.sourceStarMatchesAnyProtocol || url.protocolIsInHTTPFamily || url.protocolIs "ws" ||
    url.protocolIs "wss" || policy.protocolMatchesSelf url ||
    (if equalIgnoringASCIICase directiveName (text "img-src") then url.protocolIs "data"
      else equalIgnoringASCIICase directiveName (text "media-src") &&
        (url.protocolIs "data" || url.protocolIs "blob"))

def «matches» (directiveName : Chars) (list : SourceList) (url : RequestURL)
    (didReceiveRedirectResponse : Bool) : Bool :=
  (list.allowStar && isProtocolAllowedByStar policy directiveName url) ||
    (list.allowSelf && policy.urlMatchesSelf url) ||
    list.list.any (·.matches policy url didReceiveRedirectResponse)

end SourceList

end Odyssey.ContentSecurity
