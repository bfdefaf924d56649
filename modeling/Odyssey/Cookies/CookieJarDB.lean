import Mathlib.Data.List.Sort
import Odyssey.Cookies.CookieUtil

namespace Odyssey.Cookies

open URLs

/-- A row of the table `Cookie`, without the size of the value, which nothing reads. -/
structure Row where
  name : Chars
  value : Chars
  domain : Chars
  path : Chars
  expires : Int
  session : Bool
  httpOnly : Bool
  secure : Bool
  lastUpdated : Nat
  deriving DecidableEq

inductive Source where
  | network
  | script
  deriving DecidableEq

/-- The rows are in the order of their insertion. -/
structure CookieJarDB where
  isEnabled : Bool
  isOpen : Bool
  rows : List Row

structure SetCall where
  url : Chars
  body : Chars
  source : Source
  now : Nat

structure SearchCall where
  requestUrl : Chars
  httpOnly : Option Bool
  secure : Option Bool
  session : Option Bool
  now : Nat

def Row.isAt (name domain path : Chars) (row : Row) : Bool :=
  row.name == name && row.domain == domain && row.path == path

variable {D : Type} (platform : Platform D)

namespace CookieJarDB

variable (jar : CookieJarDB)

def hasHttpOnlyCookie (name domain path : Chars) : Bool :=
  jar.rows.any (fun row => row.isAt name domain path && row.httpOnly)

def canAcceptCookie (cookie : Cookie D) (host : Chars) (source : Source) : Bool :=
  !platform.publicSuffixList.any (·.isPublicSuffix cookie.domain) &&
    !(source == .script &&
      (cookie.httpOnly || jar.hasHttpOnlyCookie cookie.name cookie.domain cookie.path)) &&
    domainMatch cookie.domain host

def deleteCookieInternal (name domain path : Chars) : CookieJarDB :=
  { jar with rows := jar.rows.filter (fun row =>
      !(if path.isEmpty then row.name == name && row.domain == domain else row.isAt name domain path)) }

/-- The values of `SET_COOKIE_SQL`. -/
def rowOf (now : Nat) (cookie : Cookie D) : Row where
  name := cookie.name
  value := cookie.value
  domain := cookie.domain
  path := cookie.path
  expires := if cookie.session then 0 else platform.toInt64 cookie.expires
  session := cookie.session
  httpOnly := cookie.httpOnly
  secure := cookie.secure
  lastUpdated := now

/-- `INSERT OR REPLACE` removes the row with the same name, domain and path. -/
def setCookie (now : Nat) (cookie : Cookie D) : Bool × CookieJarDB :=
  if !cookie.session && platform.hasPassed now cookie.expires then
    (true, jar.deleteCookieInternal cookie.name cookie.domain cookie.path)
  else
    (true, { jar with
      rows := jar.rows.filter (fun row => !row.isAt cookie.name cookie.domain cookie.path) ++
        [rowOf platform now cookie] })

def cookieOf (call : SetCall) : Option (Cookie D) :=
  (parseCookieHeader platform call.now call.body).map (fun cookie =>
    { cookie with
      domain := if cookie.domain.isEmpty then dot :: platform.host call.url else cookie.domain
      path := if cookie.path.isEmpty then defaultPathForURL platform call.url else cookie.path })

def setCookieFromHeader (call : SetCall) : Bool × CookieJarDB :=
  if !jar.isEnabled || !jar.isOpen || call.url.isEmpty || call.body.isEmpty then (false, jar)
  else match cookieOf platform call with
    | none => (false, jar)
    | some cookie =>
      if jar.canAcceptCookie platform cookie (platform.host call.url) call.source then
        jar.setCookie platform call.now cookie
      else (false, jar)

def afterCalls (calls : List SetCall) : CookieJarDB :=
  calls.foldl (fun jar call => (jar.setCookieFromHeader platform call).2) jar

def localDomain (requestHost : Chars) : Chars :=
  match reverseFind dot requestHost requestHost.length with
  | none => requestHost
  | some topLevelSeparator =>
    -- One less than zero is the largest number.
    match reverseFind dot requestHost
        (if topLevelSeparator = 0 then requestHost.length else topLevelSeparator - 1) with
    | none => requestHost
    | some secondLevelSeparator => requestHost.drop (secondLevelSeparator + 1)

/-- The fifth parameter of the statement; null if it is none. -/
def domainPattern (requestHost : Chars) : Option Chars :=
  if platform.hostIsIPAddress requestHost || !requestHost.contains dot then none
  else match platform.publicSuffixList with
    | some list =>
      let topPrivateDomain := list.topPrivatelyControlledDomain requestHost
      if topPrivateDomain.isEmpty then none else some (text "*." ++ topPrivateDomain)
    | none => some (text "*." ++ localDomain requestHost)

def selects (call : SearchCall) (requestHost : Chars) (row : Row) : Bool :=
  !(!row.session && platform.isOver call.now row.expires) && call.httpOnly.all (row.httpOnly == ·) &&
    call.secure.all (row.secure == ·) && call.session.all (row.session == ·) &&
    (row.domain == requestHost || (domainPattern platform requestHost).any (platform.glob · row.domain))

/-- `ORDER BY length(path) DESC, lastupdated`; what is equal stays in the order of insertion. -/
def comesFirst (first second : Row) : Prop :=
  platform.textLength second.path < platform.textLength first.path ∨
    platform.textLength first.path = platform.textLength second.path ∧
      first.lastUpdated ≤ second.lastUpdated

instance : DecidableRel (comesFirst platform) := fun _ _ => inferInstanceAs (Decidable (_ ∨ _))

def isPathMatched (cookiePath requestPath : Chars) : Bool :=
  cookiePath == requestPath ||
    (cookiePath.isPrefixOf requestPath && cookiePath.getLast? == some slash) ||
    (cookiePath.isPrefixOf requestPath && requestPath[cookiePath.length]? == some slash)

def found (row : Row) : Cookie Int where
  name := row.name
  value := row.value
  domain := convertToASCIILowercase row.domain
  path := convertToASCIILowercase row.path
  expires := row.expires * 1000
  httpOnly := row.httpOnly
  secure := row.secure
  session := row.session

/-- The loop over the rows, which ends when there are more than `MAX_COOKIE_PER_DOMAIN` results. -/
def collect (requestHost requestPath : Chars) : List Row → List (Cookie Int) → List (Cookie Int)
  | [], results => results
  | row :: rows, results =>
    if results.length > 80 then results
    else if domainMatch (found row).domain requestHost && isPathMatched (found row).path requestPath then
      collect requestHost requestPath rows (results ++ [found row])
    else collect requestHost requestPath rows results

def requestPathOf (requestUrl : Chars) : Chars :=
  let path := convertToASCIILowercase (platform.path requestUrl)
  if path.isEmpty then [slash] else path

def searchCookies (call : SearchCall) : Option (List (Cookie Int)) :=
  let requestHost := convertToASCIILowercase (platform.host call.requestUrl)
  if !jar.isEnabled || !jar.isOpen || requestHost.isEmpty then none
  else some (collect requestHost (requestPathOf platform call.requestUrl)
    ((jar.rows.filter (selects platform call requestHost)).insertionSort (comesFirst platform)) [])

end CookieJarDB

/-- URLs that are a host and a path, on a platform without a list of suffixes. -/
def plainPlatform : Platform Nat where
  host := fun url => url.takeWhile (· != slash)
  path := fun url => url.dropWhile (· != slash)
  hostIsIPAddress := fun _ => false
  isSpaceOrNewline := (· == ' '.toNat)
  zero := 0
  parseExpires := fun _ => none
  parseExpires_nil := rfl
  secondsFrom := fun now value => if value = text "0" then some now else none
  secondsFrom_nil := fun _ => rfl
  hasPassed := fun now expires => decide (expires ≤ now)
  toInt64 := Int.ofNat
  glob := fun pattern domain => pattern.tail.isSuffixOf domain
  textLength := List.length
  isOver := fun now expires => decide (expires < now)
  publicSuffixList := none

def emptyJar : CookieJarDB := ⟨true, true, []⟩

end Odyssey.Cookies
