import Odyssey.Cookies.CookieJarDB

namespace Odyssey.Cookies

open List URLs

inductive Attribute (D : Type) where
  | httpOnly
  | secure
  | domain (value : Chars)
  | maxAge (time : D)
  | expires (time : D)
  | path (value : Chars)

variable {D : Type}

def Attribute.domain? : Attribute D → Option Chars
  | .domain value => some value
  | _ => none

def Attribute.path? : Attribute D → Option Chars
  | .path value => some value
  | _ => none

def Attribute.maxAge? : Attribute D → Option D
  | .maxAge time => some time
  | _ => none

def Attribute.expires? : Attribute D → Option D
  | .expires time => some time
  | _ => none

open Attribute

variable (platform : Platform D) (now : Nat)

def attributeOf (segment : Chars) : Option (Attribute D) :=
  let isNamed (name : String) : Bool :=
    equalIgnoringASCIICase (stripWhiteSpace platform (segment.takeWhile (· != '='.toNat))) (text name)
  let value := stripWhiteSpace platform (segment.dropWhile (· != '='.toNat)).tail
  if isNamed "httponly" then some .httpOnly
  else if isNamed "secure" then some .secure
  else if isNamed "domain" then
    if value.isEmpty then none else some (.domain (attributeDomain platform value))
  else if isNamed "max-age" then (platform.secondsFrom now value).map .maxAge
  else if isNamed "expires" then (platform.parseExpires value).map .expires
  else if isNamed "path" then if value.head? == some slash then some (.path value) else none
  else none

def pairOf (line : Chars) : Chars := line.takeWhile (· != ';'.toNat)

/-- The pair is split at its own first equality sign. -/
def specifiedPair (pair : Chars) : Chars × Chars :=
  match pair.idxOf? '='.toNat with
  | none => ([], stripWhiteSpace platform pair)
  | some position => (stripWhiteSpace platform (pair.take position),
      stripWhiteSpace platform (pair.drop (position + 1)))

/-- The last of these counts: a max-age comes before every expires. -/
def expiries (attributes : List (Attribute D)) : List D :=
  attributes.filterMap expires? ++ attributes.filterMap maxAge?

def specifiedCookie (pair : Chars × Chars) (attributes : List (Attribute D)) : Cookie D where
  name := pair.1
  value := pair.2
  domain := (attributes.filterMap domain?).getLastD []
  path := (attributes.filterMap path?).getLastD []
  expires := (expiries attributes).getLast?.getD platform.zero
  httpOnly := attributes.any (· matches .httpOnly)
  secure := attributes.any (· matches .secure)
  session := (expiries attributes).getLast?.isNone

def Attribute.apply (state : Bool × Cookie D) : Attribute D → Bool × Cookie D
  | .httpOnly => (state.1, { state.2 with httpOnly := true })
  | .secure => (state.1, { state.2 with secure := true })
  | .domain value => (state.1, { state.2 with domain := value })
  | .maxAge time => (true, { state.2 with expires := time, session := false })
  | .expires time => if state.1 then state else (state.1, { state.2 with expires := time, session := false })
  | .path value => (state.1, { state.2 with path := value })

theorem parseCookieAttributes_eq (state : Bool × Cookie D) (segment : Chars) :
    parseCookieAttributes platform now state segment =
      ((attributeOf platform now segment).map (apply state)).getD state := by
  obtain ⟨hasMaxAge, cookie⟩ := state
  have apart : ∀ name, equalIgnoringASCIICase name (text "expires") = true →
      equalIgnoringASCIICase name (text "path") = false := by
    intro name expires
    rw [equalIgnoringASCIICase, eq_of_beq expires]
    decide
  simp only [parseCookieAttributes, attributeOf]
  generalize stripWhiteSpace platform (takeWhile (· != '='.toNat) segment) = name
  generalize stripWhiteSpace platform (dropWhile (· != '='.toNat) segment).tail = value
  by_cases httpOnly : equalIgnoringASCIICase name (text "httponly") = true
  · simp [httpOnly, apply]
  by_cases secure : equalIgnoringASCIICase name (text "secure") = true
  · simp [httpOnly, secure, apply]
  by_cases domain : equalIgnoringASCIICase name (text "domain") = true
  · by_cases empty : value.isEmpty = true <;> simp [httpOnly, secure, domain, empty, apply]
  by_cases maxAge : equalIgnoringASCIICase name (text "max-age") = true
  · cases platform.secondsFrom now value <;> simp [httpOnly, secure, domain, maxAge, apply]
  by_cases expires : equalIgnoringASCIICase name (text "expires") = true
  · cases platform.parseExpires value <;> cases hasMaxAge <;>
      simp [httpOnly, secure, domain, maxAge, expires, apart name expires, apply]
  by_cases path : equalIgnoringASCIICase name (text "path") = true
  · by_cases starts : (value.head? == some slash) = true <;>
      simp [httpOnly, secure, domain, maxAge, expires, path, starts, apply]
  · simp [httpOnly, secure, domain, maxAge, expires, path]

theorem parse_segments (pair : Chars × Chars) (segments : List Chars) :
    segments.foldl (parseCookieAttributes platform now)
        (false, { name := pair.1, value := pair.2, expires := platform.zero }) =
      (!((segments.filterMap (attributeOf platform now)).filterMap maxAge?).isEmpty,
        specifiedCookie platform pair (segments.filterMap (attributeOf platform now))) := by
  induction segments using reverseRecOn with
  | nil => rfl
  | append_singleton segments segment ih =>
    rw [foldl_append, ih, foldl_cons, parseCookieAttributes_eq, filterMap_append, filterMap_cons]
    generalize segments.filterMap (attributeOf platform now) = attributes
    cases attributeOf platform now segment with
    | none => simp
    | some read =>
      cases read with
      | expires time =>
        simp only [specifiedCookie, expiries, apply, domain?, path?, maxAge?, expires?, filterMap_append,
          filterMap_cons, filterMap_nil, Option.map_some]
        cases attributes.filterMap maxAge? with
        | nil => simp
        | cons first rest => simp
      | _ =>
        simp [specifiedCookie, expiries, apply, domain?, path?, maxAge?, expires?, filterMap_cons]

theorem takeWhile_mark {mark : Nat} {front behind : Chars} (absent : mark ∉ front)
    (ends : behind = [] ∨ behind.head? = some mark) : (front ++ behind).takeWhile (· != mark) = front := by
  have passes : ∀ character ∈ front, (character != mark) = true := by
    intro character member
    simp only [bne_iff_ne]
    rintro rfl
    exact absent member
  rw [takeWhile_append_of_pos passes]
  rcases ends with rfl | starts
  · rw [takeWhile_nil, append_nil]
  · obtain ⟨others, rfl⟩ := head?_eq_some_iff.mp starts
    simp

variable {line : Chars}

theorem splitOn_pair (line : Chars) :
    line.splitOn ';'.toNat = pairOf line :: (line.splitOn ';'.toNat).tail := by
  by_cases separated : ';'.toNat ∈ line
  · obtain ⟨pair, rest, rfl, absent⟩ := eq_append_cons_of_mem separated
    rw [pairOf, takeWhile_mark absent (.inr rfl), splitOn_append_cons_self_of_not_mem absent rest, tail_cons]
  · have whole := takeWhile_mark separated (.inl rfl)
    rw [append_nil] at whole
    rw [pairOf, whole, splitOn_eq_singleton separated, tail_cons]

/-- The attributes of a header, those that the pair is taken for at the front. -/
theorem parseCookieHeader_eq (short : line.length < maxCookieLine) :
    parseCookieHeader platform now line = some (specifiedCookie platform (cookiePair platform line)
      ((attributeOf platform now (pairOf line)).toList ++
        (line.splitOn ';'.toNat).tail.filterMap (attributeOf platform now))) := by
  simp only [parseCookieHeader, if_neg (Nat.not_le.mpr short)]
  rw [parse_segments, splitOn_pair line, filterMap_cons, tail_cons]
  cases attributeOf platform now (pairOf line) <;> rfl

theorem idxOf?_line (assigned : '='.toNat ∈ pairOf line) :
    line.idxOf? '='.toNat = (pairOf line).idxOf? '='.toNat := by
  obtain ⟨position, found⟩ := Option.isSome_iff_exists.mp (isSome_idxOf?.mpr assigned)
  conv_lhs => rw [← takeWhile_append_dropWhile (p := (· != ';'.toNat)) (l := line)]
  unfold idxOf? at *
  rw [findIdx?_append, ← pairOf, found, Option.some_or]

/-- Where the first equality sign lies behind the pair, the pair is the name. -/
theorem cookiePair_behind (inLine : '='.toNat ∈ line) (behind : '='.toNat ∉ pairOf line) :
    cookiePair platform line = (stripWhiteSpace platform (pairOf line), stripWhiteSpace platform []) := by
  obtain ⟨position, found⟩ := Option.isSome_iff_exists.mp (isSome_idxOf?.mpr inLine)
  have far : (pairOf line).length ≤ position := by
    have parts := takeWhile_append_dropWhile (p := (· != ';'.toNat)) (l := line)
    have split : line.idxOf? '='.toNat = ((dropWhile (· != ';'.toNat) line).idxOf? '='.toNat).map
        (· + (pairOf line).length) := by
      conv_lhs => rw [← parts]
      have absent : (pairOf line).findIdx? (· == '='.toNat) = none := idxOf?_eq_none_iff.mpr behind
      unfold idxOf?
      rw [findIdx?_append, ← pairOf, absent, Option.none_or]
    rw [split, Option.map_eq_some_iff] at found
    obtain ⟨offset, -, rfl⟩ := found
    exact Nat.le_add_left _ _
  have pair : takeWhile (· != ';'.toNat) line = pairOf line := rfl
  simp only [cookiePair, found, pair, take_of_length_le far, drop_of_length_le (Nat.le_succ_of_le far)]

theorem cookiePair_eq_iff : cookiePair platform line = specifiedPair platform (pairOf line) ↔
    ('='.toNat ∈ line → '='.toNat ∈ pairOf line ∨ stripWhiteSpace platform (pairOf line) = []) := by
  by_cases assigned : '='.toNat ∈ pairOf line
  · refine iff_of_true ?_ (fun _ => .inl assigned)
    unfold cookiePair specifiedPair
    rw [idxOf?_line assigned]
    rfl
  · have split : specifiedPair platform (pairOf line) = ([], stripWhiteSpace platform (pairOf line)) := by
      rw [specifiedPair, idxOf?_eq_none_iff.mpr assigned]
    by_cases inLine : '='.toNat ∈ line
    · have empty : stripWhiteSpace platform [] = [] := rfl
      rw [split, cookiePair_behind platform inLine assigned, empty]
      simp only [Prod.mk.injEq, inLine, assigned, true_implies, false_or]
      exact ⟨And.left, fun none => ⟨none, none.symm⟩⟩
    · refine iff_of_true ?_ (fun member => absurd member inLine)
      rw [split, cookiePair, idxOf?_eq_none_iff.mpr inLine]
      rfl

/-- Another attribute of the header says the same or counts before this one. -/
def Attribute.Overridden (others : List (Attribute D)) : Attribute D → Prop
  | .httpOnly => others.any (· matches .httpOnly) = true
  | .secure => others.any (· matches .secure) = true
  | .domain _ => others.filterMap domain? ≠ []
  | .path _ => others.filterMap path? ≠ []
  | .maxAge time => others.filterMap maxAge? ≠ [] ∨ (others.filterMap expires?).getLast? = some time
  | .expires _ => expiries others ≠ []

/-- The texts of a domain and of a path are not empty. -/
theorem attributeOf_text {segment value : Chars} {own : Attribute D}
    (read : attributeOf platform now segment = some own) (said : own = .domain value ∨ own = .path value) :
    value ≠ [] := by
  rintro rfl
  simp only [attributeOf] at read
  generalize stripWhiteSpace platform (dropWhile (· != '='.toNat) segment).tail = text at read
  rcases said with rfl | rfl
  · have filled : ¬text.isEmpty = true ∧ attributeDomain platform text = [] := by
      split_ifs at read <;> simp_all
    unfold attributeDomain at filled
    split_ifs at filled <;> simp_all
  · split_ifs at read <;> simp_all

theorem specifiedCookie_cons_iff (pair : Chars × Chars) {own : Attribute D} {others : List (Attribute D)}
    (filled : ∀ value, own = .domain value ∨ own = .path value → value ≠ []) :
    specifiedCookie platform pair (own :: others) = specifiedCookie platform pair others ↔
      own.Overridden others := by
  cases own with
  | httpOnly => simp [specifiedCookie, expiries, domain?, path?, maxAge?, expires?, Overridden]
  | secure => simp [specifiedCookie, expiries, domain?, path?, maxAge?, expires?, Overridden]
  | domain value =>
    have filled := filled value (.inl rfl)
    simp only [specifiedCookie, expiries, domain?, path?, maxAge?, expires?, Overridden, filterMap_cons]
    cases others.filterMap domain? <;> simp [filled]
  | path value =>
    have filled := filled value (.inr rfl)
    simp only [specifiedCookie, expiries, domain?, path?, maxAge?, expires?, Overridden, filterMap_cons]
    cases others.filterMap path? <;> simp [filled]
  | maxAge time =>
    simp only [specifiedCookie, expiries, domain?, path?, maxAge?, expires?, Overridden, filterMap_cons]
    cases others.filterMap maxAge? with
    | nil => cases last : (others.filterMap expires?).getLast? <;> simp [last, eq_comm]
    | cons first rest => simp
  | expires time =>
    simp only [specifiedCookie, expiries, domain?, path?, maxAge?, expires?, Overridden, filterMap_cons, cons_append]
    cases others.filterMap expires? ++ others.filterMap maxAge? <;> simp

/-- A header gives the cookie that it says exactly if the pair has an equality sign of its own, unless the line
    has none or the pair is blank, and if an attribute that the pair is taken for is overridden. -/
theorem header_says_cookie_iff (platform : Platform D) (now : Nat) (line : Chars)
    (short : line.length < maxCookieLine) :
    parseCookieHeader platform now line = some (specifiedCookie platform (specifiedPair platform (pairOf line))
      ((line.splitOn ';'.toNat).tail.filterMap (attributeOf platform now))) ↔
    ('='.toNat ∈ line → '='.toNat ∈ pairOf line ∨ stripWhiteSpace platform (pairOf line) = []) ∧
      ∀ own, attributeOf platform now (pairOf line) = some own →
        own.Overridden ((line.splitOn ';'.toNat).tail.filterMap (attributeOf platform now)) := by
  rw [parseCookieHeader_eq platform now short, Option.some.injEq, ← cookiePair_eq_iff]
  generalize (line.splitOn ';'.toNat).tail.filterMap (attributeOf platform now) = others
  have pairs : ∀ attributes, specifiedCookie platform (cookiePair platform line) attributes =
      specifiedCookie platform (specifiedPair platform (pairOf line)) others ↔
      cookiePair platform line = specifiedPair platform (pairOf line) ∧
        specifiedCookie platform (specifiedPair platform (pairOf line)) attributes =
          specifiedCookie platform (specifiedPair platform (pairOf line)) others := by
    intro attributes
    refine ⟨fun same => ?_, fun same => same.1 ▸ same.2⟩
    have pair : cookiePair platform line = specifiedPair platform (pairOf line) :=
      Prod.ext (congrArg Cookie.name same) (congrArg Cookie.value same)
    exact ⟨pair, pair ▸ same⟩
  rw [pairs]
  refine and_congr_right (fun _ => ?_)
  cases read : attributeOf platform now (pairOf line) with
  | none => simp
  | some own =>
    simp only [Option.toList_some, singleton_append, Option.some.injEq, forall_eq']
    exact specifiedCookie_cons_iff platform _ (fun _ => attributeOf_text platform now read)

theorem repeated_path_says_cookie :
    parseCookieHeader plainPlatform 0 (text "path=/a; Secure; path=/c") = some (specifiedCookie plainPlatform
      (specifiedPair plainPlatform (pairOf (text "path=/a; Secure; path=/c")))
      (((text "path=/a; Secure; path=/c").splitOn ';'.toNat).tail.filterMap (attributeOf plainPlatform 0))) := by
  refine (header_says_cookie_iff plainPlatform 0 (text "path=/a; Secure; path=/c") (by decide)).mpr
    ⟨by decide, ?_⟩
  rintro own ⟨⟩
  exact nofun

/-- The name of a cookie marks it, and an equality sign in an attribute takes away its value. -/
theorem pair_is_an_attribute : (parseCookieHeader plainPlatform 0 (text "Secure=no")).map (·.secure) = some true ∧
      (parseCookieHeader plainPlatform 0 (text "a; Path=/")).map (fun cookie => (cookie.name, cookie.value)) =
        some (text "a", []) := by decide

end Odyssey.Cookies
