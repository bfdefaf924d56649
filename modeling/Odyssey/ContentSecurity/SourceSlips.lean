import Odyssey.ContentSecurity.SourceNames

namespace Odyssey.ContentSecurity

open Cookies URLs List

/-- The scheme http stands for https too, by the flag of the URL; any other one for itself. -/
def SchemeAllows (url : RequestURL) (scheme : Chars) : Prop :=
  if equalLettersIgnoringASCIICase scheme (text "http") = true then url.protocolIsInHTTPFamily = true
  else equalIgnoringASCIICase url.protocol scheme = true

/-- `*.` before a name is taken for the name itself too. -/
def HostPart.Apex (url : RequestURL) : HostPart → Prop
  | below name => name ≠ [] ∧ equalIgnoringASCIICase url.host name = true
  | any | named _ => False

/-- Port 80 is taken for port 443 under any scheme. -/
def PortPart.Upgraded (url : RequestURL) (port : PortPart) : Prop :=
  port = number 80 ∧ url.port = some 443 ∧ url.protocolIs "https" = false

/-- The expression lets the URL pass for more than it says: behind a scheme and a host without a name
    the port and the path are not looked at; or the host or the port is taken for another one. -/
def Expression.Slips (policy : Policy) (url : RequestURL) (redirected : Bool) : Expression → Prop
  | schemeSource _ => False
  | hostSource scheme host port path => SchemeAllows url (scheme.getD policy.selfSourceProtocol) ∧
      (scheme.isSome = true ∧ host.name = [] ∨
        host.name ≠ [] ∧ (host.Apex url ∨ port.Upgraded url) ∧ (host.Names url ∨ host.Apex url) ∧
          (port.Names url ∨ port.Upgraded url) ∧ (redirected = true ∨ PathNames policy url path))

/-- What is compared as the keyword `'self'`, and is not taken for a hash. -/
def ReadAsSelf (policy : Policy) (string : Chars) : Prop :=
  equalLettersIgnoringASCIICase string (text "'self'") = true ∧ parseHashSource policy string = false

/-- An expression of the list slips on the URL, the origin of the policy does, or a text that is not
    `'self'` is compared as equal to it. -/
inductive Slipped (policy : Policy) (value : Chars) (url : RequestURL) (redirected : Bool) : Prop where
  | expression (string : Chars) (listed : string ∈ SourceList.expressions value) (expression : Expression)
      (spelled : expression.Spelled policy string) (slips : expression.Slips policy url redirected)
  | origin (string : Chars) (listed : string ∈ SourceList.expressions value) (read : ReadAsSelf policy string)
      (slips : policy.origin.Slips policy url false)
  | keyword (string : Chars) (listed : string ∈ SourceList.expressions value) (read : ReadAsSelf policy string)
      (other : equalIgnoringASCIICase string (text "'self'") = false)
      (allowed : SchemeAllows url policy.selfSourceProtocol) (names : policy.origin.Names policy url false)

variable {policy : Policy} {url : RequestURL} {source : Source} {redirected : Bool}

variable {scheme name path string : Chars}

theorem SchemeAllows.names (allowed : SchemeAllows url scheme) : SchemeNames url scheme := by
  unfold SchemeAllows at allowed
  split at allowed
  · exact .inr ⟨‹_›, allowed⟩
  · exact .inl allowed

theorem Source.schemeMatches_iff (own : source.scheme = [] → scheme = policy.selfSourceProtocol)
    (given : source.scheme ≠ [] → scheme = source.scheme) :
    source.schemeMatches policy url = true ↔ SchemeAllows url scheme := by
  unfold schemeMatches Policy.protocolMatchesSelf SchemeAllows
  by_cases empty : source.scheme = []
  · rw [if_pos (List.isEmpty_iff.mpr empty), own empty]
    split <;> rfl
  · rw [if_neg (mt List.isEmpty_iff.mp empty), given empty]
    split <;> rfl

theorem wildcardMatches_iff {host : Chars} : Source.wildcardMatches host name = true ↔
    ∃ label tail, host = label ++ '.'.toNat :: tail ∧ equalIgnoringASCIICase tail name = true := by
  simp only [Source.wildcardMatches, endsWithIgnoringASCIICase, Bool.and_eq_true, decide_eq_true_eq, beq_iff_eq]
  constructor
  · rintro ⟨⟨⟨_, same⟩, longer⟩, dot⟩
    refine ⟨host.take (host.length - name.length - 1), host.drop (host.length - name.length), ?_, same⟩
    obtain ⟨inside, dot⟩ := List.getElem?_eq_some_iff.mp dot
    have rest := drop_eq_getElem_cons inside
    rw [dot, show host.length - name.length - 1 + 1 = host.length - name.length by omega] at rest
    rw [← rest, take_append_drop]
  · rintro ⟨label, tail, rfl, same⟩
    have lengths : tail.length = name.length := by
      have mapped := congrArg length (beq_iff_eq.mp same)
      rwa [length_map, length_map] at mapped
    have whole : (label ++ '.'.toNat :: tail).length = label.length + 1 + name.length := by
      rw [length_append, length_cons]
      omega
    have behind : (label ++ '.'.toNat :: tail).drop (label.length + 1) = tail := by
      rw [drop_append, Nat.add_sub_cancel_left, drop_of_length_le (by omega)]
      rfl
    rw [whole, Nat.add_sub_cancel, Nat.add_sub_cancel, behind]
    exact ⟨⟨⟨by omega, same⟩, by omega⟩, by simp⟩

theorem HostPart.matches_iff {host : HostPart} (named : host.name ≠ []) (same : source.host = host.name)
    (wild : source.hostHasWildcard = host.hasWildcard) :
    source.hostMatches url = true ↔ host.Names url ∨ host.Apex url := by
  rw [Source.hostMatches, same, wild, Bool.or_eq_true, Bool.and_eq_true, wildcardMatches_iff]
  cases host with
  | any => exact absurd rfl named
  | below name =>
    have nonempty : name ≠ [] := named
    simp only [HostPart.name, hasWildcard, Names, Apex, nonempty, ne_eq, not_false_eq_true, true_and]
    exact or_comm
  | named name => simp [HostPart.name, hasWildcard, Names, Apex]

theorem isDefaultPort_iff {protocol : Chars} {port number : Nat} (known : defaultPortForProtocol protocol = some port) :
    isDefaultPortForProtocol number protocol = true ↔ number = port := by
  rw [isDefaultPortForProtocol, known, beq_iff_eq, Option.some_inj]
  exact eq_comm

theorem PortPart.matches_iff {port : PortPart} (same : source.port = port.value)
    (wild : source.portHasWildcard = port.hasWildcard) :
    source.portMatches url = true ↔ port.Names url ∨ port.Upgraded url := by
  have http : ∀ number, isDefaultPortForProtocol number (text "http") = true ↔ number = 80 :=
    fun number => isDefaultPort_iff (by decide)
  have https : ∀ number, isDefaultPortForProtocol number (text "https") = true ↔ number = 443 :=
    fun number => isDefaultPort_iff (by decide)
  rw [Source.portMatches, wild, same]
  cases port with
  | any => simp [hasWildcard, Names]
  | absent =>
    cases asked : url.port with
    | none => simp [value, hasWildcard, Names, asked]
    | some number =>
      simp only [value, hasWildcard, Names, Upgraded, asked, isDefaultPortForProtocol]
      simp [@eq_comm _ (some number)]
  | number port =>
    cases asked : url.port with
    | none =>
      simp only [value, hasWildcard, Names, Upgraded, asked, Option.any_some, Option.any_none, ← http]
      simp [isDefaultPortForProtocol, or_comm]
    | some number =>
      simp only [value, hasWildcard, Names, Upgraded, asked, Option.any_some]
      cases url.protocolIs "https" <;> simp [http, https]

theorem Source.pathMatches_iff : source.pathMatches policy url = true ↔ PathNames policy url source.path := by
  simp only [pathMatches, PathNames]
  split
  · next empty => exact iff_of_true rfl (.inl (isEmpty_iff.mp empty))
  · next given =>
    have nonempty : source.path ≠ [] := mt isEmpty_iff.mpr given
    split
    · next slash =>
      rw [ isPrefixOf_iff_prefix]
      constructor
      · exact fun front => .inr (.inr ⟨beq_iff_eq.mp slash, front⟩)
      · rintro (empty | same | ⟨_, front⟩)
        · exact absurd empty nonempty
        · rw [same]
        · exact front
    · next inner =>
      rw [beq_iff_eq]
      constructor
      · exact fun same => .inr (.inl same.symm)
      · rintro (empty | same | ⟨slash, _⟩)
        · exact absurd empty nonempty
        · exact same.symm
        · exact absurd (beq_iff_eq.mpr slash) inner

theorem Source.matches_iff : source.matches policy url redirected = true ↔
    source.schemeMatches policy url = true ∧ (source.host = [] ∨ source.hostMatches url = true ∧
      source.portMatches url = true ∧ (redirected = true ∨ source.pathMatches policy url = true)) := by
  cases ofScheme : source.schemeMatches policy url with
  | false => simp [Source.matches, ofScheme]
  | true => by_cases only : source.host = [] <;> simp [Source.matches, ofScheme, isSchemeOnly, and_assoc]

namespace Expression

variable {host : HostPart} {port : PortPart} {scheme : Option Chars}
  (own : ∀ name ∈ scheme, name = [] → name = policy.selfSourceProtocol)
include own

theorem matches_iff : (stored (.hostSource scheme host port path)).matches policy url redirected = true ↔
    SchemeAllows url (scheme.getD policy.selfSourceProtocol) ∧ (host.name = [] ∨ host.name ≠ [] ∧
      (host.Names url ∨ host.Apex url) ∧ (port.Names url ∨ port.Upgraded url) ∧
        (redirected = true ∨ PathNames policy url path)) := by
  rw [Source.matches_iff, Source.schemeMatches_iff]
  · refine and_congr_right fun _ => ?_
    by_cases named : host.name = []
    · exact iff_of_true (.inl named) (.inl named)
    · rw [host.matches_iff named rfl rfl, port.matches_iff rfl rfl, Source.pathMatches_iff]
      simp only [stored, named, false_or, ne_eq, not_false_eq_true, true_and]
  · cases scheme with
    | none => exact fun _ => rfl
    | some name => exact own name rfl
  · cases scheme with
    | none => exact fun given => absurd rfl given
    | some name => exact fun _ => rfl

theorem matches_of_slips (slips : (hostSource scheme host port path).Slips policy url redirected) :
    (stored (.hostSource scheme host port path)).matches policy url redirected = true := by
  obtain ⟨allowed, ⟨_, nameless⟩ | ⟨named, _, ofHost, ofPort, ofPath⟩⟩ := slips
  · exact (matches_iff own).mpr ⟨allowed, .inl nameless⟩
  · exact (matches_iff own).mpr ⟨allowed, .inr ⟨named, ofHost, ofPort, ofPath⟩⟩

theorem names_of_matches (kept : scheme.isSome = true ∨ host.name ≠ [])
    (matched : (stored (.hostSource scheme host port path)).matches policy url redirected = true)
    (apart : ¬ (hostSource scheme host port path).Slips policy url redirected) :
    SchemeAllows url (scheme.getD policy.selfSourceProtocol) ∧
      Names policy url redirected (.hostSource scheme host port path) := by
  obtain ⟨allowed, nameless | ⟨named, ofHost, ofPort, ofPath⟩⟩ := (matches_iff own).mp matched
  · have given := kept.resolve_right (fun named => named nameless)
    exact absurd ⟨allowed, .inl ⟨given, nameless⟩⟩ apart
  · have exact_parts : ¬ (host.Apex url ∨ port.Upgraded url) :=
      fun taken => apart ⟨allowed, .inr ⟨named, taken, ofHost, ofPort, ofPath⟩⟩
    rw [not_or] at exact_parts
    exact ⟨allowed, allowed.names, ofHost.resolve_right exact_parts.1, ofPort.resolve_right exact_parts.2, ofPath⟩

end Expression

theorem Expression.Spelled.own {scheme : Option Chars} {host : HostPart} {port : PortPart}
    (spelled : (hostSource scheme host port path).Spelled policy string) :
    ∀ name ∈ scheme, name ≠ [] := by
  obtain ⟨_, _, _, _, schemes, _⟩ := spelled
  rintro name given rfl
  cases schemes [] given

theorem Expression.names_of_stored {expression : Expression} (spelled : expression.Spelled policy string)
    (kept : expression.stored.scheme ≠ [] ∨ expression.stored.host ≠ [])
    (matched : expression.stored.matches policy url redirected = true)
    (apart : ¬ expression.Slips policy url redirected) : expression.Names policy url redirected := by
  cases expression with
  | schemeSource name =>
    have allowed := (Source.matches_iff.mp matched).1
    rw [Source.schemeMatches_iff (fun empty => ?_) (fun _ => rfl)] at allowed
    · exact allowed.names
    · obtain rfl : name = [] := empty
      cases spelled.1
  | hostSource scheme host port path =>
    refine (names_of_matches (fun name given empty => absurd empty (spelled.own name given)) ?_ matched apart).2
    refine kept.imp_left fun given => ?_
    cases scheme with
    | none => exact absurd rfl given
    | some name => rfl

theorem Expression.Slips.kept {expression : Expression} (slips : expression.Slips policy url redirected)
    (spelled : expression.Spelled policy string) :
    expression.stored.scheme ≠ [] ∨ expression.stored.host ≠ [] := by
  cases expression with
  | schemeSource name => exact slips.elim
  | hostSource scheme host port path =>
    refine slips.2.imp (fun nameless => ?_) And.left
    obtain ⟨name, rfl⟩ := Option.isSome_iff_exists.mp nameless.1
    exact spelled.own name rfl

theorem Expression.Slips.matches {expression : Expression} (slips : expression.Slips policy url redirected)
    (spelled : expression.Spelled policy string) : expression.stored.matches policy url redirected = true := by
  cases expression with
  | schemeSource name => exact slips.elim
  | hostSource scheme host port path =>
    exact matches_of_slips (fun name given empty => absurd empty (spelled.own name given)) slips

/-- What the fields of a list come from. -/
structure SourceList.Justified (policy : Policy) (strings : List Chars) (list : SourceList) : Prop where
  star : list.allowStar = true → text "*" ∈ strings
  self : list.allowSelf = true → ∃ string ∈ strings, ReadAsSelf policy string
  listed : ∀ source ∈ list.list, ∃ string ∈ strings, ∃ expression : Expression,
    expression.Spelled policy string ∧ source = expression.stored ∧ (source.scheme ≠ [] ∨ source.host ≠ [])

namespace SourceList

variable {strings : List Chars} {list : SourceList}

theorem Justified.addSource (justified : list.Justified policy strings) (member : string ∈ strings) :
    (addSource policy list string).Justified policy strings := by
  unfold SourceList.addSource
  split
  · exact justified
  · next plain =>
    cases parses : parseSource policy string with
    | none => exact justified
    | some parsed =>
      cases parsed with
      | star => exact ⟨fun _ => (parseSource_spec parses : string = _) ▸ member, justified.self, justified.listed⟩
      | self =>
        have noHash := (Bool.or_eq_false_iff.mp (Bool.of_not_eq_true plain)).2
        exact ⟨justified.star, fun _ => ⟨string, member, parseSource_spec parses, noHash⟩, justified.listed⟩
      | unsafeInline | unsafeEval => exact ⟨justified.star, justified.self, justified.listed⟩
      | source source =>
        dsimp only
        split
        · exact justified
        · next kept =>
          refine ⟨justified.star, justified.self, fun other isOther => ?_⟩
          rcases mem_append.mp isOther with old | new
          · exact justified.listed other old
          · obtain rfl := mem_singleton.mp new
            obtain ⟨expression, spelled, same⟩ := parse_spelled (parseSource_spec parses)
            refine ⟨string, member, expression, spelled, same, ?_⟩
            rw [Bool.and_eq_true, List.isEmpty_iff, List.isEmpty_iff, not_and_or] at kept
            exact kept

theorem parse_justified (policy : Policy) (value : Chars) :
    (parse policy value).Justified policy (expressions value) := by
  unfold parse
  split
  · exact ⟨nofun, nofun, nofun⟩
  · exact foldlRecOn (motive := fun list : SourceList => list.Justified policy (expressions value)) _ _
      ⟨nofun, nofun, nofun⟩ fun _ justified _ member => justified.addSource member

/-- What one expression adds is there at the end. -/
theorem foldl_addSource (property : SourceList → Prop) (member : string ∈ strings)
    (kept : ∀ list other, property list → property (addSource policy list other))
    (added : ∀ list, property (addSource policy list string)) :
    property (strings.foldl (addSource policy) list) := by
  induction strings generalizing list with
  | nil => cases member
  | cons first rest ih =>
    rcases mem_cons.mp member with rfl | later
    · exact foldlRecOn (motive := property) rest _ (added list) fun list holds other _ => kept list other holds
    · exact ih later

theorem addSource_keeps (list : SourceList) (other : Chars) :
    (list.allowSelf = true → (addSource policy list other).allowSelf = true) ∧
      ∀ source ∈ list.list, source ∈ (addSource policy list other).list := by
  unfold addSource
  split
  · exact ⟨id, fun _ => id⟩
  · split
    · exact ⟨id, fun _ => id⟩
    · exact ⟨id, fun _ => id⟩
    · exact ⟨fun _ => rfl, fun _ => id⟩
    · exact ⟨id, fun _ => id⟩
    · exact ⟨id, fun _ => id⟩
    · split
      · exact ⟨id, fun _ => id⟩
      · exact ⟨id, fun _ => mem_append_left _⟩

theorem isSourceListNone_of_listed {value : Chars} (listed : string ∈ expressions value)
    (other : equalLettersIgnoringASCIICase string (text "'none'") = false) : isSourceListNone value = false := by
  unfold isSourceListNone
  split
  · next string single =>
    rw [single, mem_singleton] at listed
    rwa [← listed]
  · rfl

theorem mem_parse {value : Chars} {expression : Expression} (listed : string ∈ expressions value)
    (spelled : expression.Spelled policy string)
    (kept : expression.stored.scheme ≠ [] ∨ expression.stored.host ≠ []) :
    expression.stored ∈ (parse policy value).list := by
  obtain ⟨first, rest, rfl, plain⟩ := spelled.head
  have noStar : first :: rest ≠ text "*" := by
    intro star
    have parsed := parse_of_spelled spelled
    rw [star] at parsed
    have same : (⟨[], [], none, [], true, false⟩ : Source) = expression.stored := Option.some.inj parsed
    rw [← same] at kept
    simp at kept
  rw [parse, isSourceListNone_of_listed listed (not_keyword plain rfl)]
  refine foldl_addSource (expression.stored ∈ ·.list) listed ?_ ?_
  · exact fun list other => (addSource_keeps list other).2 _
  · intro list
    have filled : (expression.stored.scheme.isEmpty && expression.stored.host.isEmpty) = false := by
      rw [Bool.and_eq_false_iff]
      exact kept.imp (by simp) (by simp)
    simp only [addSource, not_nonce_or_hash plain, parseSource_of_spelled spelled noStar, filled, Bool.false_eq_true,
      if_false]
    exact mem_append_right _ mem_cons_self

theorem allowSelf_parse {value : Chars} (listed : string ∈ expressions value) (read : ReadAsSelf policy string) :
    (parse policy value).allowSelf = true := by
  have letters : string.map toASCIILowerUnchecked = text "'self'" := beq_iff_eq.mp read.1
  have others : ∀ keyword, text "'self'" ≠ keyword → equalLettersIgnoringASCIICase string keyword = false := by
    intro keyword differs
    rw [equalLettersIgnoringASCIICase, letters, beq_eq_false_iff_ne]
    exact differs
  have length : string.length = 6 := by
    have mapped := congrArg List.length letters
    rwa [length_map] at mapped
  have nonce : parseNonceSource string = false := by
    have differs : equalIgnoringASCIICase (string.take 7) (text "'nonce-") = false := by
      rw [equalIgnoringASCIICase, beq_eq_false_iff_ne]
      intro same
      have lengths := congrArg List.length same
      rw [length_map, length_map, length_take, length] at lengths
      cases lengths
    simp only [parseNonceSource, differs, Bool.false_and]
  have parses : parseSource policy string = some .self := by
    have noStar : string ≠ text "*" := by
      rintro rfl
      cases length
    have nonempty : string.isEmpty = false := by
      cases string with
      | nil => cases length
      | cons => rfl
    simp only [parseSource, nonempty, others _ (show text "'self'" ≠ text "'none'" by decide), noStar, read.1,
      Bool.false_eq_true, if_false, if_true]
  rw [parse, isSourceListNone_of_listed listed (others _ (by decide))]
  refine foldl_addSource (·.allowSelf = true) listed ?_ ?_
  · exact fun list other => (addSource_keeps list other).1
  · intro list
    simp only [addSource, nonce, read.2, Bool.or_self, Bool.false_eq_true, if_false, parses]

end SourceList

theorem Policy.origin_own (policy : Policy) :
    ∀ name ∈ some policy.selfSourceProtocol, name = [] → name = policy.selfSourceProtocol :=
  fun _ isName _ => (Option.mem_some_iff.mp isName).symm

open SourceList in
/-- A slipping expression always lets the URL pass, and it is the only way to pass without being named. -/
theorem source_list_allows_named (policy : Policy) (directiveName value : Chars) (url : RequestURL)
    (redirected : Bool) :
    (Slipped policy value url redirected →
      (parse policy value).matches policy directiveName url redirected = true) ∧
    (((parse policy value).matches policy directiveName url redirected = true →
        Named policy directiveName value url redirected) ↔
      ¬ Slipped policy value url redirected ∨ Named policy directiveName value url redirected) := by
  have matched : (parse policy value).matches policy directiveName url redirected = true ↔
      ((parse policy value).allowStar = true ∧ isProtocolAllowedByStar policy directiveName url = true) ∨
        ((parse policy value).allowSelf = true ∧ policy.urlMatchesSelf url = true) ∨
        ∃ source ∈ (parse policy value).list, source.matches policy url redirected = true := by
    simp [SourceList.matches, or_assoc]
  have justified := parse_justified policy value
  have passes : Slipped policy value url redirected →
      (parse policy value).matches policy directiveName url redirected = true := by
    rw [matched]
    rintro (⟨string, listed, expression, spelled, slips⟩ | ⟨string, listed, read, slips⟩ |
      ⟨string, listed, read, _, allowed, names⟩)
    · exact .inr (.inr ⟨_, mem_parse listed spelled (slips.kept spelled), slips.matches spelled⟩)
    · refine .inr (.inl ⟨allowSelf_parse listed read, ?_⟩)
      rw [Policy.urlMatchesSelf, ← policy.origin_stored]
      exact Expression.matches_of_slips policy.origin_own slips
    · refine .inr (.inl ⟨allowSelf_parse listed read, ?_⟩)
      rw [Policy.urlMatchesSelf, ← policy.origin_stored]
      refine (Expression.matches_iff policy.origin_own).mpr ⟨allowed, ?_⟩
      by_cases named : policy.selfHost = []
      · exact .inl named
      · exact .inr ⟨named, .inl names.2.1, .inl names.2.2.1, names.2.2.2⟩
  have covered : (parse policy value).matches policy directiveName url redirected = true →
      Slipped policy value url redirected ∨ Named policy directiveName value url redirected := by
    rw [matched]
    rintro (⟨allowed, protocol⟩ | ⟨allowed, own⟩ | ⟨source, member, allowed⟩)
    · exact .inr (.star (justified.star allowed) protocol)
    · obtain ⟨string, listed, read⟩ := justified.self allowed
      by_cases slips : policy.origin.Slips policy url false
      · exact .inl (.origin string listed read slips)
      · rw [Policy.urlMatchesSelf, ← policy.origin_stored] at own
        obtain ⟨scheme, names⟩ := Expression.names_of_matches policy.origin_own (.inl rfl) own slips
        cases keyword : equalIgnoringASCIICase string (text "'self'") with
        | true => exact .inr (.self string listed keyword names)
        | false => exact .inl (.keyword string listed read keyword scheme names)
    · obtain ⟨string, listed, expression, spelled, rfl, kept⟩ := justified.listed source member
      by_cases slips : expression.Slips policy url redirected
      · exact .inl (.expression string listed expression spelled slips)
      · exact .inr (.expression string listed expression spelled
          (expression.names_of_stored spelled kept allowed slips))
  refine ⟨passes, ?_⟩
  constructor
  · intro names
    by_cases slipped : Slipped policy value url redirected
    · exact .inr (names (passes slipped))
    · exact .inl slipped
  · intro holds allowed
    exact holds.elim (covered allowed).resolve_left id

def pagePolicy : Policy := ⟨text "http", text "page", none, false, id, fun _ => none⟩

def plainURL (port : Nat) : RequestURL := ⟨true, true, text "http", text "host", some port, text "/"⟩

open SourceList in
theorem star_host_allows_any_port :
    (parse pagePolicy (text "http://*:8080")).matches pagePolicy [] (plainURL 81) false = true ∧
      ¬ Named pagePolicy [] (text "http://*:8080") (plainURL 81) false := by
  have single : expressions (text "http://*:8080") = [text "http://*:8080"] := by decide +kernel
  have parsed : parseSchemeOrHost pagePolicy (text "http://*:8080") =
    some ⟨text "http", [], some 8080, [], true, false⟩ := by decide +kernel
  refine ⟨by decide +kernel, ?_⟩
  rintro (⟨listed, _⟩ | ⟨string, listed, keyword, _⟩ | ⟨string, listed, expression, spelled, names⟩)
  · rw [single] at listed
    revert listed
    decide
  · rw [single, mem_singleton] at listed
    subst listed
    revert keyword
    decide
  · rw [single, mem_singleton] at listed
    subst listed
    have stored := Option.some.inj (parsed.symm.trans (parse_of_spelled spelled))
    cases expression with
    | schemeSource name => cases stored
    | hostSource scheme host port path =>
      have port_is : some 8080 = port.value := congrArg Source.port stored
      cases port with
      | absent | any => cases port_is
      | number port =>
        obtain rfl := Option.some.inj port_is
        rcases names.2.2.1 with same | ⟨absent, _⟩ | ⟨other, _⟩
        · cases same
        · cases absent
        · cases other

end Odyssey.ContentSecurity
