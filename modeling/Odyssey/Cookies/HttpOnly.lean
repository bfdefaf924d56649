import Mathlib.Data.List.TakeWhile
import Odyssey.Cookies.HeaderAttributes
import Odyssey.Cookies.SiteIsolation

namespace Odyssey.Cookies

open URLs List Option

variable {D : Type} {platform : Platform D}

theorem defaultPathForURL_ne_nil (platform : Platform D) (url : Chars) : defaultPathForURL platform url ≠ [] := by
  simp only [defaultPathForURL]
  split_ifs with starts
  · exact cons_ne_nil slash []
  · have nonempty : platform.path url ≠ [] := by
      intro empty
      exact starts (by rw [empty]; rfl)
    split
    · exact cons_ne_nil slash []
    · exact cons_ne_nil slash []
    · rename_i position above _
      cases position with
      | zero => exact absurd rfl above
      | succ position => simp [nonempty]

namespace CookieJarDB

theorem cookieOf_path {call : SetCall} {cookie : Cookie D} (made : cookieOf platform call = some cookie) :
    cookie.path.isEmpty = false := by
  obtain ⟨parsed, -, rfl⟩ := map_eq_some_iff.mp made
  by_cases empty : parsed.path.isEmpty = true
  · simp [empty, defaultPathForURL_ne_nil]
  · simp [empty]

theorem filter_httpOnly {rows : List Row} {removed : Row → Bool}
    (none : rows.any (fun row => removed row && row.httpOnly) = false) :
    (rows.filter (!removed ·)).filter (·.httpOnly) = rows.filter (·.httpOnly) := by
  rw [List.filter_filter]
  apply filter_congr
  intro row member
  have kept := any_eq_false.mp none row member
  cases only : row.httpOnly with
  | false => rfl
  | true =>
    rw [only, Bool.and_true] at kept
    simp [kept]

theorem script_keeps_httpOnly (jar : CookieJarDB) {call : SetCall} (script : call.source = .script) :
    (jar.setCookieFromHeader platform call).2.rows.filter (·.httpOnly) = jar.rows.filter (·.httpOnly) := by
  unfold setCookieFromHeader
  split
  · rfl
  · cases made : cookieOf platform call with
    | none => rfl
    | some cookie =>
      simp only
      split_ifs with accepted
      · simp only [canAcceptCookie, script, Bool.and_eq_true, Bool.not_eq_true', beq_self_eq_true,
          Bool.true_and, Bool.or_eq_false_iff] at accepted
        obtain ⟨⟨-, plain, none⟩, -⟩ := accepted
        unfold setCookie
        split
        · simp only [deleteCookieInternal, cookieOf_path made]
          exact filter_httpOnly none
        · simp only [filter_append, filter_httpOnly none]
          simp [rowOf, plain]
      · rfl

end CookieJarDB

/-- What is left of a row for one who must not see HttpOnly cookies: that there is one. A value without a name
    may also be the attribute `secure`. -/
def Row.masked (row : Row) : Row := if row.httpOnly then { row with value := [], secure := false } else row

theorem masked_blind {α : Type} (look : Row → α)
    (blind : ∀ row value secure, look { row with value := value, secure := secure } = look row) (row : Row) :
    look row.masked = look row := by
  unfold Row.masked
  split
  · exact blind row [] false
  · rfl

theorem filter_masked {keeps : Row → Bool} (blind : ∀ row : Row, keeps row.masked = keeps row) (rows : List Row) :
    (rows.map Row.masked).filter keeps = (rows.filter keeps).map Row.masked := by
  rw [List.filter_map]
  congr 2
  funext row
  exact blind row

/-- The cookies are the same, or they are HttpOnly and differ in what is masked. -/
def Indistinct (cookie other : Cookie D) : Prop :=
  cookie = other ∨ cookie.httpOnly = true ∧ other = { cookie with value := other.value, secure := other.secure }

/-- The jars hold the same cookies, up to what is masked of the HttpOnly ones. -/
structure Alike (first second : CookieJarDB) : Prop where
  isEnabled : first.isEnabled = second.isEnabled
  isOpen : first.isOpen = second.isOpen
  rows : first.rows.map Row.masked = second.rows.map Row.masked

namespace Alike

open CookieJarDB

def Results (first second : Bool × CookieJarDB) : Prop := first.1 = second.1 ∧ Alike first.2 second.2

variable {first second : CookieJarDB} (alike : Alike first second)
include alike

theorem hasHttpOnlyCookie (name domain path : Chars) :
    first.hasHttpOnlyCookie name domain path = second.hasHttpOnlyCookie name domain path := by
  let look : Row → Bool := fun row => row.isAt name domain path && row.httpOnly
  have blind : look ∘ Row.masked = look := funext (masked_blind look (fun _ _ _ => rfl))
  show first.rows.any look = second.rows.any look
  rw [← blind, ← List.any_map, ← List.any_map, alike.rows]

theorem filter (keeps : Row → Bool)
    (blind : ∀ row value secure, keeps { row with value := value, secure := secure } = keeps row) :
    Alike { first with rows := first.rows.filter keeps } { second with rows := second.rows.filter keeps } := by
  have masked := masked_blind keeps blind
  exact ⟨alike.isEnabled, alike.isOpen, by rw [← filter_masked masked, ← filter_masked masked, alike.rows]⟩

theorem searchCookies {search : SearchCall} (restricted : search.httpOnly = some false) :
    first.searchCookies platform search = second.searchCookies platform search := by
  have visible : ∀ (jar : CookieJarDB) (host : Chars), jar.rows.filter (selects platform search host) =
      (jar.rows.map Row.masked).filter (selects platform search host) := by
    intro jar host
    have unseen : ∀ row : Row, row.httpOnly = true → selects platform search host row = false := by
      intro row httpOnly
      simp [selects, restricted, httpOnly]
    have blind : ∀ row : Row, selects platform search host row.masked = selects platform search host row := by
      intro row
      cases httpOnly : row.httpOnly with
      | false => rw [Row.masked, httpOnly, if_neg (by decide)]
      | true =>
        rw [unseen row httpOnly]
        exact unseen _ (by rw [Row.masked, if_pos httpOnly]; exact httpOnly)
    have unmasked : ∀ row ∈ jar.rows.filter (selects platform search host), row = row.masked := by
      intro row member
      cases httpOnly : row.httpOnly with
      | false => rw [Row.masked, httpOnly, if_neg (by decide)]
      | true => simp [unseen row httpOnly] at member
    rw [filter_masked blind, ← map_congr_left unmasked, List.map_id']
  simp only [CookieJarDB.searchCookies, visible, alike.rows, alike.isEnabled, alike.isOpen]

theorem setCookie (now : Nat) {cookie other : Cookie D} (indistinct : Indistinct cookie other) :
    Results (first.setCookie platform now cookie) (second.setCookie platform now other) := by
  have same : other = { cookie with value := other.value, secure := other.secure } := by
    rcases indistinct with rfl | ⟨-, same⟩
    · rfl
    · exact same
  have masked : (rowOf platform now cookie).masked = (rowOf platform now other).masked := by
    rcases indistinct with rfl | ⟨httpOnly, -⟩
    · rfl
    · rw [same]
      simp [Row.masked, rowOf, httpOnly]
  unfold CookieJarDB.setCookie
  rw [same] at masked ⊢
  dsimp only
  split
  · exact ⟨rfl, alike.filter _ (fun _ _ _ => rfl)⟩
  · have kept := alike.filter (fun row => !row.isAt cookie.name cookie.domain cookie.path) (fun _ _ _ => rfl)
    refine ⟨rfl, alike.isEnabled, alike.isOpen, ?_⟩
    simp only [map_append, kept.rows, map_singleton, masked]

theorem acceptCookie (host : Chars) (source : Source) (now : Nat) {cookie other : Cookie D}
    (indistinct : Indistinct cookie other) :
    Results (if first.canAcceptCookie platform cookie host source then first.setCookie platform now cookie
        else (false, first))
      (if second.canAcceptCookie platform other host source then second.setCookie platform now other
        else (false, second)) := by
  have same : second.canAcceptCookie platform other host source =
      first.canAcceptCookie platform cookie host source := by
    rcases indistinct with rfl | ⟨-, same⟩
    · simp only [canAcceptCookie, alike.hasHttpOnlyCookie]
    · rw [same]
      simp only [canAcceptCookie, alike.hasHttpOnlyCookie]
  rw [same]
  split
  · exact alike.setCookie now indistinct
  · exact ⟨rfl, alike⟩

end Alike

/-- A header up to the end of its value and then; one without a name has no equality sign in the pair. -/
def header (name : Option Chars) (value rest : Chars) : Chars :=
  match name with
  | some name => name ++ '='.toNat :: (value ++ rest)
  | none => value ++ rest

/-- The calls are the same, or they set HttpOnly cookies whose values differ. -/
inductive DifferInValue (platform : Platform D) (condition : Option Chars → Chars → Chars → Chars → Prop) :
    SetCall → SetCall → Prop where
  | same (call : SetCall) : DifferInValue platform condition call call
  | value (url : Chars) (source : Source) (now : Nat) (name : Option Chars) (first second rest : Chars)
      (inName : ∀ text ∈ name, '='.toNat ∉ text ∧ ';'.toNat ∉ text)
      (inValue : ∀ value ∈ [first, second], ';'.toNat ∉ value ∧ (name = none → '='.toNat ∉ value))
      (ends : rest = [] ∨ rest.head? = some ';'.toNat)
      (httpOnly : ∀ value ∈ [first, second],
        (parseCookieHeader platform now (header name value rest)).all (·.httpOnly) = true)
      (met : condition name first second rest) :
      DifferInValue platform condition ⟨url, header name first rest, source, now⟩
        ⟨url, header name second rest, source, now⟩

/-- The headers are short enough. The name is not that of an attribute with a value; without a name there is no
    equality sign behind the value either. -/
def Harmless (platform : Platform D) (name : Option Chars) (first second rest : Chars) : Prop :=
  (header name first rest).length < maxCookieLine ∧ (header name second rest).length < maxCookieLine ∧
    match name with
    | some name => ∀ valued ∈ ["domain", "max-age", "expires", "path"],
        equalIgnoringASCIICase (stripWhiteSpace platform name) (text valued) = false
    | none => '='.toNat ∉ rest

theorem header_eq (name : Option Chars) (value rest : Chars) :
    header name value rest = header name value [] ++ rest := by
  cases name <;> simp [header]

/-- A pair and what comes behind it. -/
theorem split_pair {pair rest : Chars} (absent : ';'.toNat ∉ pair) (ends : rest = [] ∨ rest.head? = some ';'.toNat) :
    pairOf (pair ++ rest) = pair ∧
      ((pair ++ rest).splitOn ';'.toNat).tail = (rest.splitOn ';'.toNat).tail := by
  refine ⟨takeWhile_mark absent ends, ?_⟩
  rcases ends with rfl | starts
  · rw [append_nil, splitOn_eq_singleton absent]
    rfl
  · obtain ⟨others, rfl⟩ := head?_eq_some_iff.mp starts
    rw [splitOn_append_cons_self_of_not_mem absent others]
    exact (congrArg tail (splitOn_append_cons_self_of_not_mem (not_mem_nil) others)).symm

theorem attributeOf_named {name : Chars} (now : Nat) (inName : '='.toNat ∉ name)
    (harmless : ∀ valued ∈ ["domain", "max-age", "expires", "path"],
      equalIgnoringASCIICase (stripWhiteSpace platform name) (text valued) = false) (value other : Chars) :
    attributeOf platform now (name ++ '='.toNat :: value) = attributeOf platform now (name ++ '='.toNat :: other) := by
  simp only [forall_mem_cons] at harmless
  obtain ⟨domain, maxAge, expires, path, -⟩ := harmless
  have named : ∀ value : Chars, (name ++ '='.toNat :: value).takeWhile (· != '='.toNat) = name :=
    fun _ => takeWhile_mark inName (.inr rfl)
  simp only [attributeOf, named, domain, maxAge, expires, path, Bool.false_eq_true, if_false]

/-- Without a value an attribute only marks the cookie. -/
theorem attributeOf_unassigned (now : Nat) {segment : Chars} (unassigned : '='.toNat ∉ segment) :
    attributeOf platform now segment ∈ [none, some .httpOnly, some .secure] := by
  have empty : stripWhiteSpace platform (segment.dropWhile (· != '='.toNat)).tail = [] := by
    have passes : ∀ character ∈ segment, (character != '='.toNat) = true := by
      intro character member
      rw [bne_iff_ne]
      rintro rfl
      exact unassigned member
    rw [dropWhile_eq_nil_iff.mpr passes]
    rfl
  simp only [attributeOf, empty, platform.parseExpires_nil, platform.secondsFrom_nil]
  split_ifs <;> simp_all

theorem specifiedCookie_marked (pair : Chars × Chars) {own : Option (Attribute D)} (others : List (Attribute D))
    (marks : own ∈ [none, some .httpOnly, some .secure]) :
    ∃ httpOnly secure, specifiedCookie platform pair (own.toList ++ others) =
      { specifiedCookie platform pair others with httpOnly := httpOnly, secure := secure } := by
  simp only [mem_cons, not_mem_nil, or_false] at marks
  rcases marks with rfl | rfl | rfl
  · exact ⟨_, _, rfl⟩
  · exact ⟨true, _, rfl⟩
  · exact ⟨_, true, rfl⟩

theorem cookiePair_named {name value rest : Chars} (inName : '='.toNat ∉ name) (inPair : ';'.toNat ∉ header name value [])
    (ends : rest = [] ∨ rest.head? = some ';'.toNat) : cookiePair platform (header name value rest) =
      (stripWhiteSpace platform name, stripWhiteSpace platform value) := by
  have position : (header name value rest).idxOf? '='.toNat = some name.length := by
    have before : name.findIdx? (· == '='.toNat) = none := idxOf?_eq_none_iff.mpr inName
    rw [header, idxOf?, findIdx?_append, before]
    simp [findIdx?_cons]
  rw [header_eq] at position ⊢
  unfold cookiePair
  rw [position, takeWhile_mark inPair ends]
  simp [header]

theorem cookiePair_nameless {value rest : Chars} (inPair : ';'.toNat ∉ value)
    (unassigned : '='.toNat ∉ value ++ rest) (ends : rest = [] ∨ rest.head? = some ';'.toNat) :
    cookiePair platform (header none value rest) = ([], stripWhiteSpace platform value) := by
  unfold cookiePair header
  rw [idxOf?_eq_none_iff.mpr unassigned, takeWhile_mark inPair ends]

theorem nonempty_of_httpOnly {now : Nat} {line : Chars} {cookie : Cookie D}
    (parsed : parseCookieHeader platform now line = some cookie) (httpOnly : cookie.httpOnly = true) :
    line.isEmpty = false := by
  cases line with
  | nil =>
    rw [parseCookieHeader_eq platform now (by decide)] at parsed
    cases parsed
    cases httpOnly
  | cons first rest => rfl

section Headers

variable {now : Nat} {name : Option Chars} {first second rest : Chars}
  (inName : ∀ text ∈ name, '='.toNat ∉ text ∧ ';'.toNat ∉ text)
  (inValue : ∀ value ∈ [first, second], ';'.toNat ∉ value ∧ (name = none → '='.toNat ∉ value))
  (ends : rest = [] ∨ rest.head? = some ';'.toNat)
include inName inValue ends

theorem parse_header (met : Harmless platform name first second rest) : ∀ value ∈ [first, second],
    ∃ httpOnly secure, parseCookieHeader platform now (header name value rest) =
      some { specifiedCookie platform (((name.map (stripWhiteSpace platform)).getD [], stripWhiteSpace platform value))
          ((name.bind fun name => attributeOf platform now (header name [] [])).toList ++
            (rest.splitOn ';'.toNat).tail.filterMap (attributeOf platform now)) with
        httpOnly := httpOnly, secure := secure } := by
  intro value member
  obtain ⟨short, shorter, harmless⟩ := met
  obtain ⟨separate, unassigned⟩ := inValue value member
  have fits : (header name value rest).length < maxCookieLine := by
    simp only [mem_cons, not_mem_nil, or_false] at member
    rcases member with rfl | rfl
    · exact short
    · exact shorter
  have inPair : ';'.toNat ∉ header name value [] := by
    cases name with
    | none => simpa [header] using separate
    | some name =>
      have := (inName name rfl).2
      simp_all [header]
  obtain ⟨pair, behind⟩ := split_pair inPair ends
  rw [← header_eq] at pair behind
  rw [parseCookieHeader_eq platform now fits, pair, behind]
  cases name with
  | none =>
    have unassigned := unassigned rfl
    have inLine : '='.toNat ∉ value ++ rest := by
      rw [mem_append, not_or]
      exact ⟨unassigned, harmless⟩
    rw [cookiePair_nameless separate inLine ends]
    have marks : attributeOf platform now (header none value []) ∈ [none, some .httpOnly, some .secure] :=
      attributeOf_unassigned now (by simpa [header] using unassigned)
    obtain ⟨httpOnly, secure, marked⟩ := specifiedCookie_marked ([], stripWhiteSpace platform value)
      ((rest.splitOn ';'.toNat).tail.filterMap (attributeOf platform now)) marks
    exact ⟨httpOnly, secure, congrArg some marked⟩
  | some name =>
    have named := (inName name rfl).1
    have same := attributeOf_named now named harmless (value ++ []) ([] ++ [])
    rw [cookiePair_named named inPair ends]
    exact ⟨_, _, by rw [header, same]; rfl⟩

theorem parse_indistinct (httpOnly : ∀ value ∈ [first, second],
      (parseCookieHeader platform now (header name value rest)).all (·.httpOnly) = true)
    (met : Harmless platform name first second rest) :
    ∃ cookie other, parseCookieHeader platform now (header name first rest) = some cookie ∧
      parseCookieHeader platform now (header name second rest) = some other ∧ cookie.httpOnly = true ∧
      other = { cookie with value := other.value, secure := other.secure } := by
  have parsed := @parse_header _ platform now _ _ _ _ inName inValue ends met
  simp only [forall_mem_cons, not_mem_nil, false_implies, implies_true, and_true] at parsed httpOnly
  obtain ⟨⟨marked, secure, parsed⟩, marked', secure', parsed'⟩ := parsed
  rw [parsed, parsed'] at httpOnly
  obtain ⟨rfl, rfl⟩ := httpOnly
  exact ⟨_, _, parsed, parsed', rfl, rfl⟩

end Headers

namespace Alike

open CookieJarDB

variable {first second : CookieJarDB} (alike : Alike first second)
include alike

theorem setCookieFromHeader {call other : SetCall} (differ : DifferInValue platform (Harmless platform) call other) :
    Results (first.setCookieFromHeader platform call) (second.setCookieFromHeader platform other) := by
  cases differ with
  | same =>
    simp only [CookieJarDB.setCookieFromHeader, alike.isEnabled, alike.isOpen]
    split
    · exact ⟨rfl, alike⟩
    · cases cookieOf platform call with
      | none => exact ⟨rfl, alike⟩
      | some cookie => exact alike.acceptCookie _ _ _ (.inl rfl)
  | value url source now name value value' rest inName inValue ends httpOnly met =>
    obtain ⟨cookie, other, parsed, parsed', marked, same⟩ := parse_indistinct inName inValue ends httpOnly met
    have marked' : other.httpOnly = true := by
      rw [same]
      exact marked
    simp only [CookieJarDB.setCookieFromHeader, alike.isEnabled, alike.isOpen, nonempty_of_httpOnly parsed marked,
      nonempty_of_httpOnly parsed' marked', cookieOf, parsed, parsed', Option.map_some]
    split
    · exact ⟨rfl, alike⟩
    · refine alike.acceptCookie _ _ _ (.inr ⟨marked, ?_⟩)
      rw [same]

theorem afterCalls {calls others : List SetCall}
    (differ : List.Forall₂ (DifferInValue platform (Harmless platform)) calls others) :
    Alike (first.afterCalls platform calls) (second.afterCalls platform others) := by
  induction differ generalizing first second with
  | nil => exact alike
  | cons here _ ih => exact ih (alike.setCookieFromHeader here).2

end Alike

open CookieJarDB in
/-- Scripts neither change nor see HttpOnly cookies, as long as no value is taken for an attribute. -/
theorem scripts_never_touch_httpOnly {D : Type} (platform : Platform D) :
    (∀ (jar : CookieJarDB) (call : SetCall), call.source = .script →
      (jar.setCookieFromHeader platform call).2.rows.filter (·.httpOnly) = jar.rows.filter (·.httpOnly)) ∧
    (∀ (jar : CookieJarDB) (search : SearchCall) (results : List (Cookie Int)),
      search.httpOnly = some false → jar.searchCookies platform search = some results →
      ∀ cookie ∈ results, cookie.httpOnly = false) ∧
    ∀ (jar : CookieJarDB) (calls others : List SetCall),
      List.Forall₂ (DifferInValue platform (Harmless platform)) calls others →
      (∀ search : SearchCall, search.httpOnly = some false →
        (jar.afterCalls platform calls).searchCookies platform search =
          (jar.afterCalls platform others).searchCookies platform search) ∧
      ∀ call : SetCall, call.source = .script →
        ((jar.afterCalls platform calls).setCookieFromHeader platform call).1 =
          ((jar.afterCalls platform others).setCookieFromHeader platform call).1 := by
  refine ⟨fun jar call script => jar.script_keeps_httpOnly script, ?_, ?_⟩
  · intro jar search results restricted searched cookie member
    obtain ⟨row, -, rfl, selected, -⟩ := mem_searchCookies searched member
    simp only [selects, restricted, Bool.and_eq_true, all_some, beq_iff_eq] at selected
    exact selected.1.1.1.2
  intro jar calls others differ
  have alike : Alike (jar.afterCalls platform calls) (jar.afterCalls platform others) :=
    Alike.afterCalls ⟨rfl, rfl, rfl⟩ differ
  exact ⟨fun search restricted => alike.searchCookies restricted,
    fun call _ => (alike.setCookieFromHeader (.same call)).1⟩

def secretCall (value : String) : SetCall :=
  ⟨text "h/", header (some (text "s")) (text value) (text "; HttpOnly"), .network, 0⟩

open CookieJarDB in
theorem scripts_never_touch_httpOnly_secret : let calls := [secretCall "1"]
    let others := [secretCall "22"]
    ((emptyJar.afterCalls plainPlatform calls).rows.map (·.value) = [text "1"] ∧
      (emptyJar.afterCalls plainPlatform others).rows.map (·.value) = [text "22"]) ∧
    ((emptyJar.afterCalls plainPlatform calls).setCookieFromHeader plainPlatform
        ⟨text "h/", text "s=x", .script, 0⟩).1 =
      ((emptyJar.afterCalls plainPlatform others).setCookieFromHeader plainPlatform
        ⟨text "h/", text "s=x", .script, 0⟩).1 := by
  refine ⟨by decide +kernel, ?_⟩
  have differ : List.Forall₂ (DifferInValue plainPlatform (Harmless plainPlatform)) [secretCall "1"]
      [secretCall "22"] :=
    .cons (.value _ _ _ _ _ _ _ (by decide) (by decide) (by decide) (by decide +kernel)
      (by unfold Harmless; decide +kernel)) .nil
  exact ((scripts_never_touch_httpOnly plainPlatform).2.2 emptyJar _ _ differ).2 _ rfl

def pathCall (value : String) : SetCall :=
  ⟨text "h/", header (some (text "path")) (text value) (text "; HttpOnly"), .network, 0⟩

open CookieJarDB in
/-- The value of a cookie named `path` is taken for its path, so that a script learns it: its own cookie
    is refused for the one value and accepted for the other. -/
theorem value_taken_for_path :
    List.Forall₂ (DifferInValue plainPlatform (fun _ _ _ _ => True)) [pathCall "/a"] [pathCall "/b"] ∧
    ((emptyJar.afterCalls plainPlatform [pathCall "/a"]).setCookieFromHeader plainPlatform
      ⟨text "h/", text "path=x; path=/a", .script, 0⟩).1 = false ∧
    ((emptyJar.afterCalls plainPlatform [pathCall "/b"]).setCookieFromHeader plainPlatform
      ⟨text "h/", text "path=x; path=/a", .script, 0⟩).1 = true := by
  refine ⟨.cons ?_ .nil, by decide +kernel, by decide +kernel⟩
  exact .value _ _ _ _ _ _ _ (by decide) (by decide) (by decide) (by decide +kernel) trivial

end Odyssey.Cookies
