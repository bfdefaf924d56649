import Odyssey.Text.Search
import Odyssey.URLs.Characters

namespace Odyssey.Cookies

open Text URLs

abbrev Chars := List Nat

def equalIgnoringASCIICase (first second : Chars) : Bool :=
  first.map toASCIILower == second.map toASCIILower

def convertToASCIILowercase (string : Chars) : Chars := string.map toASCIILower

/-- `topPrivatelyControlledDomain` and `isPublicSuffix`. -/
structure PublicSuffixList where
  topPrivatelyControlledDomain : Chars → Chars
  isPublicSuffix : Chars → Bool

/-- What the cookie code takes from elsewhere, with `D` for the numbers of seconds in a double. -/
structure Platform (D : Type) where
  /-- `URL({ }, url)`. -/
  host : Chars → Chars
  path : Chars → Chars
  hostIsIPAddress : Chars → Bool
  isSpaceOrNewline : Nat → Bool
  zero : D
  parseExpires : Chars → Option D
  parseExpires_nil : parseExpires [] = none
  /-- `time(0)` and the number of a `max-age`, if it is one. -/
  secondsFrom : Nat → Chars → Option D
  secondsFrom_nil : ∀ now, secondsFrom now [] = none
  /-- The comparison with `MonotonicTime::now()`. -/
  hasPassed : Nat → D → Bool
  toInt64 : D → Int
  /-- The functions of the database: `GLOB`, `length`, and the comparison with `datetime('now')`. -/
  glob : Chars → Chars → Bool
  textLength : Chars → Nat
  isOver : Nat → Int → Bool
  /-- Present if the build has `ENABLE(PUBLIC_SUFFIX_LIST)`. -/
  publicSuffixList : Option PublicSuffixList

/-- A null name is an empty one: `SQLiteStatement::bindText` binds both as the empty text. -/
structure Cookie (D : Type) where
  name : Chars
  value : Chars
  domain : Chars := []
  path : Chars := []
  expires : D
  httpOnly : Bool := false
  secure : Bool := false
  session : Bool := true
  deriving DecidableEq

def dot : Nat := '.'.toNat

def slash : Nat := '/'.toNat

def domainMatch (cookieDomain host : Chars) : Bool :=
  let index := find cookieDomain host
  let tailMatch := index.any (· + cookieDomain.length == host.length)
  if tailMatch && index == some 0 then true
  else if tailMatch && index.any (fun index => 0 < index && host[index]? == some dot) then true
  else cookieDomain.head? == some dot && find host cookieDomain == some 1

variable {D : Type} (platform : Platform D)

def stripWhiteSpace (string : Chars) : Chars :=
  ((string.dropWhile platform.isSpaceOrNewline).reverse.dropWhile platform.isSpaceOrNewline).reverse

def attributeDomain (value : Chars) : Chars :=
  if !platform.hostIsIPAddress value && value.head? != some dot && value.contains dot then dot :: value
  else value

/-- The flag is `hasMaxAge`. -/
def parseCookieAttributes (now : Nat) (state : Bool × Cookie D) (entry : Chars) : Bool × Cookie D :=
  let (hasMaxAge, result) := state
  let name := stripWhiteSpace platform (entry.takeWhile (· != '='.toNat))
  let value := stripWhiteSpace platform (entry.dropWhile (· != '='.toNat)).tail
  if equalIgnoringASCIICase name (text "httponly") then (hasMaxAge, { result with httpOnly := true })
  else if equalIgnoringASCIICase name (text "secure") then (hasMaxAge, { result with secure := true })
  else if equalIgnoringASCIICase name (text "domain") then
    if value.isEmpty then state else (hasMaxAge, { result with domain := attributeDomain platform value })
  else if equalIgnoringASCIICase name (text "max-age") then
    match platform.secondsFrom now value with
    | some expires => (true, { result with expires := expires, session := false })
    | none => state
  else if equalIgnoringASCIICase name (text "expires") && !hasMaxAge then
    match platform.parseExpires value with
    | some expires => (hasMaxAge, { result with expires := expires, session := false })
    | none => state
  else if equalIgnoringASCIICase name (text "path") then
    if value.head? == some slash then (hasMaxAge, { result with path := value }) else state
  else state

def maxCookieLine : Nat := 5000

/-- The name and the value of the pair at the front. The first equality sign may lie behind it. -/
def cookiePair (cookieLine : Chars) : Chars × Chars :=
  let pair := cookieLine.takeWhile (· != ';'.toNat)
  match cookieLine.idxOf? '='.toNat with
  | none => ([], stripWhiteSpace platform pair)
  | some position => (stripWhiteSpace platform (pair.take position),
      stripWhiteSpace platform (pair.drop (position + 1)))

/-- The pair at the front is one of the attributes too. -/
def parseCookieHeader (now : Nat) (cookieLine : Chars) : Option (Cookie D) :=
  if maxCookieLine ≤ cookieLine.length then none
  else
    let (name, value) := cookiePair platform cookieLine
    some ((cookieLine.splitOn ';'.toNat).foldl (parseCookieAttributes platform now)
      (false, { name := name, value := value, expires := platform.zero })).2

/-- The last place of a character up to one. -/
def reverseFind (character : Nat) (string : Chars) (start : Nat) : Option Nat :=
  ((string.take (start + 1)).reverse.idxOf? character).map ((string.take (start + 1)).length - 1 - ·)

def defaultPathForURL (url : Chars) : Chars :=
  let path := platform.path url
  if path.head? != some slash then [slash]
  else match reverseFind slash path path.length with
    | none | some 0 => [slash]
    | some position => path.take position

end Odyssey.Cookies
