import Odyssey.Cookies.CookieJarDB

namespace Odyssey.Cookies

open Text URLs List

def withoutLeadingDot (domain : Chars) : Chars :=
  if domain.head? = some dot then domain.tail else domain

/-- The host has the name of the domain, or a name below a domain with a leading dot. -/
def Covers (domain host : Chars) : Prop :=
  host = withoutLeadingDot domain ∨ domain.head? = some dot ∧ domain <:+ host

instance : DecidableRel Covers := fun _ _ => inferInstanceAs (Decidable (_ ∨ _))

/-- The domain does not go on behind the host, and does not occur in it before its end. A host of dots
    only is not found behind the dot of its domain. -/
def Clear (domain host : Chars) : Prop :=
  (∀ rest, domain = dot :: (host ++ rest) → (rest = [] ↔ ∃ character ∈ host, character ≠ dot)) ∧
    (domain.head? = some dot → ∀ before, host = before ++ domain →
      ∀ earlier after, host = earlier ++ domain ++ after → before.length ≤ earlier.length)

variable {domain host rest tail : Chars}

theorem dots_of_starts {mark : Nat} (starts : host <+: mark :: (host ++ rest)) :
    ∀ character ∈ host, character = mark := by
  induction host with
  | nil => exact nofun
  | cons first others ih =>
    obtain ⟨same, behind⟩ := cons_prefix_cons.mp starts
    subst same
    intro character member
    rcases mem_cons.mp member with rfl | member
    · rfl
    · exact ih behind character member

theorem find_one_iff :
    find host (dot :: tail) = some 1 ↔ ∃ rest, tail = host ++ rest ∧ ∃ character ∈ host, character ≠ dot := by
  constructor
  · intro found
    obtain ⟨before, rest, split, length⟩ := find_some found
    obtain ⟨first, rfl⟩ := length_eq_one_iff.mp length
    have split : tail = host ++ rest := (cons.inj split).2
    refine ⟨rest, split, ?_⟩
    by_contra dots
    push Not at dots
    -- A host of dots is found at the leading dot.
    have moved : host ++ [dot] = dot :: host := by
      rw [eq_replicate_of_mem dots, ← replicate_succ', ← replicate_succ]
    have starts : host <+: dot :: tail := by
      rw [split]
      exact ⟨dot :: rest, by rw [← cons_append, ← moved, append_assoc]; rfl⟩
    rw [find_zero starts] at found
    cases found
  · rintro ⟨rest, rfl, character, member, other⟩
    have behind : ¬ host <+: dot :: (host ++ rest) := fun starts => other (dots_of_starts starts character member)
    rw [find, if_neg behind, find_zero (prefix_append host rest)]
    rfl

theorem tailMatch_iff : (∃ index, find domain host = some index ∧ index + domain.length = host.length ∧
      (index = 0 ∨ host[index]? = some dot)) ↔
    host = domain ∨ domain.head? = some dot ∧
      ∃ before, host = before ++ domain ∧ find domain host = some before.length := by
  constructor
  · rintro ⟨index, found, length, place⟩
    obtain ⟨before, after, split, rfl⟩ := find_some found
    have ends : after = [] := by
      rw [split] at length
      simp only [length_append] at length
      exact eq_nil_of_length_eq_zero (by omega)
    rw [ends, append_nil] at split
    by_cases whole : before = []
    · left
      rw [split, whole, nil_append]
    · right
      have below : 0 < before.length := length_pos_iff.mpr whole
      have marked := place.resolve_left (by omega)
      rw [split, getElem?_append_right (le_refl _), Nat.sub_self] at marked
      refine ⟨?_, before, split, found⟩
      rw [head?_eq_getElem?]
      exact marked
  · rintro (rfl | ⟨marked, before, split, found⟩)
    · exact ⟨0, find_zero (prefix_refl _), by omega, .inl rfl⟩
    · refine ⟨before.length, found, ?_, .inr ?_⟩
      · rw [split, length_append]
      · rw [split, getElem?_append_right (le_refl _), Nat.sub_self, ← head?_eq_getElem?]
        exact marked

theorem domainMatch_iff : domainMatch domain host = true ↔
    (∃ index, find domain host = some index ∧ index + domain.length = host.length ∧
      (index = 0 ∨ host[index]? = some dot)) ∨
    domain.head? = some dot ∧ find host domain = some 1 := by
  unfold domainMatch
  cases find domain host with
  | none => simp
  | some index =>
    rcases Nat.eq_zero_or_pos index with rfl | above
    · by_cases whole : domain.length = host.length <;> simp [whole]
    · by_cases ends : index + domain.length = host.length <;>
        by_cases marked : host[index]? = some dot <;> simp [above, above.ne']

theorem domainMatch_exact_iff (domain host : Chars) :
    (domainMatch domain host = true ↔ Covers domain host) ↔ Clear domain host := by
  rw [domainMatch_iff, tailMatch_iff]
  by_cases marked : domain.head? = some dot
  · obtain ⟨tail, rfl⟩ := head?_eq_some_iff.mp marked
    simp only [Covers, Clear, withoutLeadingDot, head?_cons, if_true, tail_cons, true_and,
      find_one_iff, cons.injEq, true_implies]
    constructor
    · intro exact
      refine ⟨fun rest split => ⟨?_, ?_⟩, fun before split earlier after occurs => ?_⟩
      · rintro rfl
        rw [append_nil] at split
        rcases exact.mpr (.inl split.symm) with (same | ⟨before, same, -⟩) | ⟨-, -, other⟩
        · have := congrArg length (same.trans (congrArg (dot :: ·) split))
          simp at this
        · have := congrArg length (same.trans (congrArg (before ++ dot :: ·) split))
          simp at this
          omega
        · exact other
      · intro other
        rcases exact.mp (.inr ⟨rest, split, other⟩) with same | longer
        · rw [← same] at split
          simpa using split
        · have := longer.length_le
          simp only [split, length_append, length_cons] at this
          omega
      · rcases exact.mpr (.inr ⟨before, split.symm⟩) with (same | ⟨first, same, found⟩) | ⟨_, shorter, -⟩
        · have := congrArg length (split.symm.trans same)
          simp at this
          simp [this]
        · have := congrArg length (split.symm.trans same)
          simp only [length_append] at this
          obtain ⟨first, bound, same⟩ := find_le occurs
          rw [found] at same
          cases same
          omega
        · have := congrArg length split
          rw [shorter] at this
          simp at this
          omega
    · rintro ⟨behind, first⟩
      constructor
      · rintro ((same | ⟨before, split, -⟩) | ⟨rest, split, other⟩)
        · exact .inr ⟨[], same.symm⟩
        · exact .inr ⟨before, split.symm⟩
        · rw [(behind rest split).mpr other, append_nil] at split
          exact .inl split.symm
      · rintro (same | ⟨before, split⟩)
        · exact .inr ⟨[], by rw [append_nil, same], (behind [] (by rw [append_nil, same])).mp rfl⟩
        · obtain ⟨index, bound, found⟩ := find_le (split.symm.trans (append_nil _).symm)
          obtain ⟨earlier, after, occurs, length⟩ := find_some found
          have := first before split.symm earlier after occurs
          exact .inl (.inr ⟨before, split.symm, by rw [found]; congr; omega⟩)
  · have unmarked : ∀ rest, domain ≠ dot :: rest := fun rest same => marked (by rw [same]; rfl)
    simp [Covers, Clear, withoutLeadingDot, marked, unmarked]

/-- The path of a cookie is a beginning of the request's path that ends where a part ends. -/
def PathPrefix (cookiePath requestPath : Chars) : Prop :=
  ∃ rest, requestPath = cookiePath ++ rest ∧
    (rest = [] ∨ cookiePath.getLast? = some slash ∨ rest.head? = some slash)

theorem pathPrefix_of_matched {cookiePath requestPath : Chars}
    (matched : CookieJarDB.isPathMatched cookiePath requestPath = true) : PathPrefix cookiePath requestPath := by
  simp only [CookieJarDB.isPathMatched, Bool.or_eq_true, Bool.and_eq_true, beq_iff_eq,
    isPrefixOf_iff_prefix] at matched
  rcases matched with (same | ⟨⟨rest, split⟩, ends⟩) | ⟨⟨rest, split⟩, next⟩
  · exact ⟨[], by rw [append_nil, same], .inl rfl⟩
  · exact ⟨rest, split.symm, .inr (.inl ends)⟩
  · rw [← split, getElem?_append_right (le_refl _), Nat.sub_self, ← head?_eq_getElem?] at next
    exact ⟨rest, split.symm, .inr (.inr next)⟩

namespace CookieJarDB

variable {D : Type} {platform : Platform D} {jar : CookieJarDB} {row : Row} {cookie : Cookie Int}

/-- The call is accepted and gives the row. -/
def SetBy (platform : Platform D) (jar : CookieJarDB) (row : Row) (call : SetCall) : Prop :=
  ∃ set, cookieOf platform call = some set ∧
    jar.canAcceptCookie platform set (platform.host call.url) call.source = true ∧
    row = rowOf platform call.now set

theorem mem_setCookieFromHeader {call : SetCall} (member : row ∈ (jar.setCookieFromHeader platform call).2.rows) :
    row ∈ jar.rows ∨ SetBy platform jar row call := by
  unfold setCookieFromHeader at member
  split at member
  · exact .inl member
  · split at member
    · exact .inl member
    · rename_i set parsed
      split_ifs at member with accepted
      · unfold setCookie at member
        split at member
        · exact .inl (mem_filter.mp member).1
        · rcases mem_append.mp member with kept | new
          · exact .inl (mem_filter.mp kept).1
          · exact .inr ⟨set, parsed, accepted, mem_singleton.mp new⟩
      · exact .inl member

theorem mem_afterCalls {calls : List SetCall} (member : row ∈ (jar.afterCalls platform calls).rows) :
    row ∈ jar.rows ∨ ∃ front call rest, calls = front ++ call :: rest ∧
      SetBy platform (jar.afterCalls platform front) row call := by
  induction calls generalizing jar with
  | nil => exact .inl member
  | cons call calls ih =>
    rcases ih member with before | ⟨front, later, rest, rfl, set⟩
    · rcases mem_setCookieFromHeader before with old | set
      · exact .inl old
      · exact .inr ⟨[], call, calls, rfl, set⟩
    · exact .inr ⟨call :: front, later, rest, rfl, set⟩

theorem mem_collect {requestHost requestPath : Chars} {rows : List Row} {results : List (Cookie Int)}
    (member : cookie ∈ collect requestHost requestPath rows results) :
    cookie ∈ results ∨ ∃ row ∈ rows, cookie = found row ∧
      domainMatch cookie.domain requestHost = true ∧ isPathMatched cookie.path requestPath = true := by
  induction rows generalizing results with
  | nil => exact .inl member
  | cons row rows ih =>
    rw [collect] at member
    split at member
    · exact .inl member
    · split_ifs at member with matched
      · rcases ih member with before | ⟨later, isLater, same⟩
        · rcases mem_append.mp before with old | new
          · exact .inl old
          · rw [mem_singleton.mp new]
            exact .inr ⟨row, mem_cons_self, rfl, Bool.and_eq_true_iff.mp matched⟩
        · exact .inr ⟨later, mem_cons_of_mem row isLater, same⟩
      · rcases ih member with old | ⟨later, isLater, same⟩
        · exact .inl old
        · exact .inr ⟨later, mem_cons_of_mem row isLater, same⟩

theorem mem_searchCookies {search : SearchCall} {results : List (Cookie Int)}
    (searched : jar.searchCookies platform search = some results) (member : cookie ∈ results) :
    ∃ row ∈ jar.rows, cookie = found row ∧
      selects platform search (convertToASCIILowercase (platform.host search.requestUrl)) row = true ∧
      domainMatch cookie.domain (convertToASCIILowercase (platform.host search.requestUrl)) = true ∧
      isPathMatched cookie.path (requestPathOf platform search.requestUrl) = true := by
  simp only [searchCookies] at searched
  split at searched
  · cases searched
  · cases searched
    rcases mem_collect member with before | ⟨row, isRow, same⟩
    · cases before
    · obtain ⟨isRow, selected⟩ := mem_filter.mp ((mem_insertionSort _).mp isRow)
      exact ⟨row, isRow, same.1, selected, same.2⟩

end CookieJarDB

open CookieJarDB in
/-- The match is exact where the domain and the host are clear. If they are in every call that is accepted and
    in the search, a cookie that is returned was set from a host of its domain, and the request goes to one,
    below the cookie's path. -/
theorem cookies_stay_on_site {D : Type} (platform : Platform D) :
    (∀ domain host, (domainMatch domain host = true ↔ Covers domain host) ↔ Clear domain host) ∧
    ∀ (jar : CookieJarDB) (calls : List SetCall) (search : SearchCall) (results : List (Cookie Int))
      (cookie : Cookie Int), jar.rows = [] →
      (∀ front call rest set, calls = front ++ call :: rest → cookieOf platform call = some set →
        (jar.afterCalls platform front).canAcceptCookie platform set (platform.host call.url) call.source = true →
        Clear set.domain (platform.host call.url)) →
      (jar.afterCalls platform calls).searchCookies platform search = some results → cookie ∈ results →
      Clear cookie.domain (convertToASCIILowercase (platform.host search.requestUrl)) →
      (∃ call ∈ calls, ∃ set, cookieOf platform call = some set ∧ cookie.name = set.name ∧
        cookie.value = set.value ∧ cookie.domain = convertToASCIILowercase set.domain ∧
        cookie.path = convertToASCIILowercase set.path ∧ Covers set.domain (platform.host call.url)) ∧
      Covers cookie.domain (convertToASCIILowercase (platform.host search.requestUrl)) ∧
      PathPrefix cookie.path (requestPathOf platform search.requestUrl) := by
  refine ⟨domainMatch_exact_iff, ?_⟩
  intro jar calls search results cookie empty clear searched member requestClear
  obtain ⟨row, isRow, same, -, toHost, below⟩ := mem_searchCookies searched member
  refine ⟨?_, ((domainMatch_exact_iff _ _).mpr requestClear).mp toHost, pathPrefix_of_matched below⟩
  rcases mem_afterCalls isRow with old | ⟨front, call, rest, rfl, set, parsed, accepted, rfl⟩
  · rw [empty] at old
    cases old
  · subst same
    have hostClear := clear front call rest set rfl parsed accepted
    have fromHost : domainMatch set.domain (platform.host call.url) = true := by
      simp only [canAcceptCookie, Bool.and_eq_true] at accepted
      exact accepted.2
    exact ⟨call, mem_append_right front mem_cons_self, set, parsed, rfl, rfl, rfl, rfl,
      ((domainMatch_exact_iff _ _).mpr hostClear).mp fromHost⟩

def siteCall : SetCall := ⟨text "a.b.c/d/e", text "n=v; Domain=b.c", .network, 0⟩

def siteSearch : SearchCall := ⟨text "B.C/d/f", none, none, none, 0⟩

def siteCookie : Cookie Int := ⟨text "n", text "v", text ".b.c", text "/d", 0, false, false, true⟩

open CookieJarDB in
theorem cookies_stay_on_site_below :
    (emptyJar.afterCalls plainPlatform [siteCall]).searchCookies plainPlatform siteSearch =
      some [siteCookie] ∧ Covers (text ".b.c") (text "b.c") ∧ PathPrefix (text "/d") (text "/d/f") := by
  have searched : (emptyJar.afterCalls plainPlatform [siteCall]).searchCookies plainPlatform siteSearch =
      some [siteCookie] := by decide +kernel
  have clear : ∀ front call rest set, [siteCall] = front ++ call :: rest → cookieOf plainPlatform call = some set →
      (emptyJar.afterCalls plainPlatform front).canAcceptCookie plainPlatform set (plainPlatform.host call.url)
        call.source = true → Clear set.domain (plainPlatform.host call.url) := by
    intro front call rest set calls parsed _
    have isCall : call ∈ [siteCall] := calls ▸ mem_append_right front mem_cons_self
    rw [mem_singleton.mp isCall] at parsed ⊢
    have domain : (cookieOf plainPlatform siteCall).map (·.domain) = some (text ".b.c") := by decide +kernel
    rw [parsed] at domain
    have same : set.domain = text ".b.c" := Option.some.inj domain
    rw [same]
    exact (domainMatch_exact_iff _ _).mp (by decide +kernel)
  have safe := (cookies_stay_on_site plainPlatform).2 emptyJar [siteCall] siteSearch [siteCookie] siteCookie rfl
    clear searched mem_cons_self ((domainMatch_exact_iff _ _).mp (by decide +kernel))
  exact ⟨searched, safe.2.1, safe.2.2⟩

open CookieJarDB in
/-- A domain that only begins with the host is taken for its own, so that a cookie set by `goo` goes to
    `goo.gle`; and a host below a domain that occurs in it twice is taken for a stranger. -/
theorem domain_behind_host_matches :
    domainMatch (text ".goo.gle") (text "goo") = true ∧ ¬ Covers (text ".goo.gle") (text "goo") ∧
    (emptyJar.afterCalls plainPlatform
        [⟨text "goo/", text "n=v; Domain=.goo.gle", .script, 0⟩]).searchCookies plainPlatform
      ⟨text "goo.gle/", none, none, none, 0⟩ =
      some [⟨text "n", text "v", text ".goo.gle", text "/", 0, false, false, true⟩] ∧
    domainMatch (text ".a") (text "b.a.a") = false ∧ Covers (text ".a") (text "b.a.a") := by
  decide +kernel

end Odyssey.Cookies
