import Odyssey.ContentSecurity.SourceList

namespace Odyssey.ContentSecurity

open Cookies URLs List

/-- The host of an expression: `*`, `*.` and a name, or a name. -/
inductive HostPart where
  | any
  | below (name : Chars)
  | named (name : Chars)

inductive PortPart where
  | absent
  | any
  | number (port : Nat)

/-- The expressions that are no keywords: `scheme:`, and `[scheme://]host[:port][/path]` with the path
    decoded. -/
inductive Expression where
  | schemeSource (name : Chars)
  | hostSource (scheme : Option Chars) (host : HostPart) (port : PortPart) (path : Chars)

namespace HostPart

def Spelled : HostPart → Chars → Prop
  | any, string => string = text "*"
  | below name, string => string = text "*." ++ name ∧ hostLabels true name = true
  | named name, string => string = name ∧ name ≠ [] ∧ hostLabels true name = true

def Names (url : RequestURL) : HostPart → Prop
  | any => True
  | below name => name ≠ [] ∧ ∃ label tail, url.host = label ++ '.'.toNat :: tail ∧
      equalIgnoringASCIICase tail name = true
  | named name => equalIgnoringASCIICase url.host name = true

def name : HostPart → Chars
  | any => []
  | below name | named name => name

def hasWildcard : HostPart → Bool
  | any | below _ => true
  | named _ => false

end HostPart

namespace PortPart

def Spelled : PortPart → Chars → Prop
  | absent, string => string = []
  | any, string => string = text ":*"
  | number port, string => ∃ digits, string = ':'.toNat :: digits ∧ digits ≠ [] ∧
      digits.all isASCIIDigit = true ∧ decimal digits = port ∧ port ≤ 65535

/-- The same port, the default of the URL's scheme where one of both is absent, or the default of http
    for a URL on that of https. -/
def Names (url : RequestURL) : PortPart → Prop
  | absent => url.port = none ∨ url.port = defaultPortForProtocol url.protocol
  | any => True
  | number port => url.port = some port ∨
      url.port = none ∧ defaultPortForProtocol url.protocol = some port ∨
      port = 80 ∧ url.protocolIs "https" = true ∧ (url.port = none ∨ url.port = some 443)

def value : PortPart → Option Nat
  | absent | any => none
  | number port => some port

def hasWildcard : PortPart → Bool
  | any => true
  | absent | number _ => false

end PortPart

def PathSpelled (policy : Policy) (path string : Chars) : Prop :=
  string = [] ∧ path = [] ∨ string.head? = some '/'.toNat ∧ path = parsePath policy string

def SchemeNames (url : RequestURL) (scheme : Chars) : Prop :=
  equalIgnoringASCIICase url.protocol scheme = true ∨
    equalLettersIgnoringASCIICase scheme (text "http") = true ∧ url.protocolIsInHTTPFamily = true

def PathNames (policy : Policy) (url : RequestURL) (path : Chars) : Prop :=
  path = [] ∨ path = policy.decodeURLEscapeSequences url.path ∨
    path.getLast? = some '/'.toNat ∧ path <+: policy.decodeURLEscapeSequences url.path

namespace Expression

def Spelled (policy : Policy) : Expression → Chars → Prop
  | schemeSource name, string => parseScheme name = some name ∧ string = name ++ text ":"
  | hostSource scheme host port path, string => ∃ hostText portText pathText,
      string = (scheme.elim [] (· ++ text "://")) ++ (hostText ++ (portText ++ pathText)) ∧
      (∀ name ∈ scheme, parseScheme name = some name) ∧ host.Spelled hostText ∧ port.Spelled portText ∧
      PathSpelled policy path pathText

def Names (policy : Policy) (url : RequestURL) (redirected : Bool) : Expression → Prop
  | schemeSource name => SchemeNames url name
  | hostSource scheme host port path => SchemeNames url (scheme.getD policy.selfSourceProtocol) ∧
      host.Names url ∧ port.Names url ∧ (redirected = true ∨ PathNames policy url path)

def stored : Expression → Source
  | schemeSource name => ⟨name, [], none, [], false, false⟩
  | hostSource scheme host port path =>
    ⟨scheme.getD [], host.name, port.value, path, host.hasWildcard, port.hasWildcard⟩

end Expression

def Policy.origin (policy : Policy) : Expression :=
  .hostSource (some policy.selfSourceProtocol) (.named policy.selfHost)
    (policy.selfPort.elim .absent .number) []

theorem Policy.origin_stored (policy : Policy) : policy.origin.stored = policy.selfSource := by
  unfold origin selfSource
  cases policy.selfPort <;> rfl

inductive Named (policy : Policy) (directiveName value : Chars) (url : RequestURL) (redirected : Bool) :
    Prop where
  | star (listed : text "*" ∈ SourceList.expressions value)
      (allowed : SourceList.isProtocolAllowedByStar policy directiveName url = true)
  | self (string : Chars) (listed : string ∈ SourceList.expressions value)
      (keyword : equalIgnoringASCIICase string (text "'self'") = true)
      (names : policy.origin.Names policy url false)
  | expression (string : Chars) (listed : string ∈ SourceList.expressions value) (expression : Expression)
      (spelled : expression.Spelled policy string) (names : expression.Names policy url redirected)

variable {policy : Policy} {source : Source} {scheme name path string : Chars}

theorem parseHost_spelled {parsed : Chars × Bool} (parses : parseHost string = some parsed) :
    ∃ host : HostPart, host.Spelled string ∧ parsed = (host.name, host.hasWildcard) := by
  unfold parseHost at parses
  split at parses
  · cases parses
  · split at parses
    · split at parses
      · cases parses
        exact ⟨.any, by subst_vars; rfl, rfl⟩
      · split at parses
        · cases parses
          exact ⟨.below _, ⟨by simp_all [text], by simp_all⟩, rfl⟩
        · cases parses
    · split at parses
      · cases parses
        exact ⟨.named _, ⟨rfl, cons_ne_nil _ _, ‹_›⟩, rfl⟩
      · cases parses

theorem parsePort_spelled {digits : Chars} {parsed : Option Nat × Bool} (parses : parsePort digits = some parsed) :
    ∃ port : PortPart, port.Spelled (':'.toNat :: digits) ∧ parsed = (port.value, port.hasWildcard) := by
  unfold parsePort at parses
  split at parses
  · cases parses
  · split at parses
    · cases parses
      exact ⟨.any, by subst_vars; rfl, rfl⟩
    · split at parses
      · cases parses
        rename_i nonempty _ number
        rw [Bool.and_eq_true, decide_eq_true_eq] at number
        exact ⟨.number _, ⟨digits, rfl, mt isEmpty_iff.mpr nonempty, number.1, rfl, number.2⟩, rfl⟩
      · cases parses

theorem head_dropWhile {p : Nat → Bool} {rest : Chars} {mark : Nat}
    (left : string.dropWhile p = mark :: rest) : p mark = false := by
  have stops := head?_dropWhile_not p string
  rw [left] at stops
  exact stops

theorem colon_or_slash {rest : Chars} {mark : Nat} (left : string.dropWhile isNotColonOrSlash = mark :: rest) :
    mark = ':'.toNat ∨ mark = '/'.toNat := by
  simpa only [isNotColonOrSlash, Bool.and_eq_false_iff, bne_eq_false_iff_eq] using head_dropWhile left

theorem splitAuthority_parts {port : Chars} (split : splitAuthority string = (name, port, path)) :
    string = name ++ (port ++ path) ∧ (port = [] ∨ port.head? = some ':'.toNat) ∧
      (path = [] ∨ path.head? = some '/'.toNat) := by
  have whole := @takeWhile_append_dropWhile _ isNotColonOrSlash string
  obtain ⟨rfl, others⟩ := Prod.mk.inj split
  cases left : string.dropWhile isNotColonOrSlash with
  | nil =>
    rw [left] at others whole
    obtain ⟨rfl, rfl⟩ := Prod.mk.inj others
    exact ⟨whole.symm, .inl rfl, .inl rfl⟩
  | cons mark rest =>
    rw [left] at others whole
    rcases colon_or_slash left with rfl | rfl
    · obtain ⟨rfl, rfl⟩ := Prod.mk.inj others
      refine ⟨?_, .inr rfl, ?_⟩
      · rw [takeWhile_append_dropWhile, whole]
      · generalize behind : dropWhile (· != '/'.toNat) (':'.toNat :: rest) = path
        cases path with
        | nil => exact .inl rfl
        | cons mark path =>
          have slash := head_dropWhile behind
          exact .inr (congrArg some (bne_eq_false_iff_eq.mp slash))
    · obtain ⟨rfl, rfl⟩ := Prod.mk.inj others
      exact ⟨whole.symm, .inl rfl, .inr rfl⟩

theorem parseAuthority_spelled (scheme : Option Chars) (named : ∀ name ∈ scheme, parseScheme name = some name)
    (parses : parseAuthority policy (scheme.getD []) string = some source) :
    ∃ expression : Expression, expression.Spelled policy (scheme.elim [] (· ++ text "://") ++ string) ∧
      source = expression.stored := by
  rcases parts : splitAuthority string with ⟨name, port, path⟩
  obtain ⟨whole, ofPort, ofPath⟩ := splitAuthority_parts parts
  simp only [parseAuthority, parts] at parses
  split at parses
  · cases parses
  · obtain ⟨host, ofHost, parses⟩ := Option.bind_eq_some_iff.mp parses
    obtain ⟨number, ofNumber, rfl⟩ := Option.map_eq_some_iff.mp parses
    obtain ⟨hostPart, spelled, rfl⟩ := parseHost_spelled ofHost
    have portPart : ∃ part : PortPart, part.Spelled port ∧ number = (part.value, part.hasWildcard) := by
      rcases ofPort with rfl | colon
      · exact ⟨.absent, rfl, (Option.some.inj ofNumber).symm⟩
      · obtain ⟨digits, rfl⟩ := head?_eq_some_iff.mp colon
        exact parsePort_spelled ofNumber
    obtain ⟨portPart, portSpelled, rfl⟩ := portPart
    refine ⟨.hostSource scheme hostPart portPart (if path.isEmpty then [] else parsePath policy path),
      ⟨name, port, path, by rw [whole], named, spelled, portSpelled, ?_⟩, rfl⟩
    rcases ofPath with rfl | slash
    · exact .inl ⟨rfl, rfl⟩
    · obtain ⟨rest, rfl⟩ := head?_eq_some_iff.mp slash
      exact .inr ⟨rfl, rfl⟩

theorem parseScheme_eq (parses : parseScheme name = some scheme) : scheme = name := by
  unfold parseScheme at parses
  split at parses
  · cases parses
  · split at parses
    · exact (Option.some.inj parses).symm
    · cases parses

theorem parseAuthority_portless (parts : splitAuthority string = (name, [], path)) :
    parseAuthority policy [] string = (parseHost name).map fun host =>
      ⟨[], host.1, none, if path.isEmpty then [] else parsePath policy path, host.2, false⟩ := by
  simp only [parseAuthority, parts]
  cases name with
  | nil => cases path <;> rfl
  | cons first rest => cases parseHost (first :: rest) <;> cases path <;> rfl

theorem parse_spelled (parses : parseSchemeOrHost policy string = some source) :
    ∃ expression : Expression, expression.Spelled policy string ∧ source = expression.stored := by
  have whole := @takeWhile_append_dropWhile _ isNotColonOrSlash string
  have authority : parseAuthority policy [] string = some source →
      ∃ expression : Expression, expression.Spelled policy string ∧ source = expression.stored :=
    parseAuthority_spelled none nofun
  generalize taken : string.takeWhile isNotColonOrSlash = name at whole
  cases left : string.dropWhile isNotColonOrSlash with
  | nil =>
    have parts : splitAuthority string = (name, [], []) := by
      rw [splitAuthority, left, taken]
      rfl
    simp only [parseSchemeOrHost, left, taken] at parses
    exact authority ((parseAuthority_portless parts).trans parses)
  | cons mark rest =>
    simp only [parseSchemeOrHost, left, taken] at parses
    rw [left] at whole
    rcases colon_or_slash left with rfl | rfl
    · rw [if_neg (by decide)] at parses
      split at parses
      · obtain ⟨scheme, ofScheme, rfl⟩ := Option.map_eq_some_iff.mp parses
        obtain rfl := isEmpty_iff.mp ‹_›
        obtain rfl := parseScheme_eq ofScheme
        exact ⟨.schemeSource _, ⟨ofScheme, whole.symm⟩, rfl⟩
      · split at parses
        · rename_i slash
          obtain ⟨behind, rfl⟩ := head?_eq_some_iff.mp slash
          obtain ⟨scheme, ofScheme, gives⟩ := Option.bind_eq_some_iff.mp parses
          obtain rfl := parseScheme_eq ofScheme
          cases behind with
          | nil => cases gives
          | cons second rest =>
            simp only [tail_cons] at gives
            split at gives
            · rename_i found
              obtain rfl := of_decide_eq_true (Bool.and_eq_true_iff.mp found).1
              obtain ⟨expression, spelled, same⟩ := parseAuthority_spelled (some scheme)
                (fun name isName => Option.mem_some_iff.mp isName ▸ ofScheme) gives
              refine ⟨expression, ?_, same⟩
              rw [← whole]
              simpa [text] using spelled
            · cases gives
        · exact authority parses
    · have parts : splitAuthority string = (name, [], '/'.toNat :: rest) := by
        rw [splitAuthority, left, taken]
        rfl
      exact authority ((parseAuthority_portless parts).trans parses)

theorem isNotColonOrSlash_of_host {character : Nat} (inHost : isHostCharacter character = true) :
    isNotColonOrSlash character = true := by
  simp only [isNotColonOrSlash, Bool.and_eq_true, bne_iff_ne]
  constructor
  all_goals
    rintro rfl
    cases inHost

theorem isNotColonOrSlash_of_labels {start : Bool} {character : Nat} (labels : hostLabels start name = true)
    (member : character ∈ name) : isNotColonOrSlash character = true := by
  induction name generalizing start with
  | nil => cases member
  | cons first rest ih =>
    rw [hostLabels] at labels
    split at labels
    · rcases mem_cons.mp member with rfl | later
      · exact isNotColonOrSlash_of_host ‹_›
      · exact ih labels later
    · simp only [Bool.and_eq_true, beq_iff_eq] at labels
      rcases mem_cons.mp member with rfl | later
      · rw [labels.1.2]
        rfl
      · exact ih labels.2 later

theorem HostPart.Spelled.parseHost {host : HostPart} (spelled : host.Spelled string) :
    parseHost string = some (host.name, host.hasWildcard) := by
  cases host with
  | any =>
    subst spelled
    rfl
  | below name =>
    obtain ⟨rfl, labels⟩ := spelled
    exact if_pos ⟨rfl, labels⟩
  | named name =>
    obtain ⟨rfl, nonempty, labels⟩ := spelled
    cases string with
    | nil => exact absurd rfl nonempty
    | cons first rest =>
      have noStar : first ≠ '*'.toNat := by
        rintro rfl
        cases labels
      exact (if_neg noStar).trans (if_pos labels)

theorem HostPart.Spelled.plain {host : HostPart} (spelled : host.Spelled string) :
    ∀ character ∈ string, isNotColonOrSlash character = true := by
  cases host with
  | any =>
    subst spelled
    decide
  | below name =>
    obtain ⟨rfl, labels⟩ := spelled
    intro character member
    rcases mem_append.mp member with mark | label
    · have marks : ∀ character ∈ text "*.", isNotColonOrSlash character = true := by decide
      exact marks character mark
    · exact isNotColonOrSlash_of_labels labels label
  | named name =>
    obtain ⟨rfl, _, labels⟩ := spelled
    exact fun character => isNotColonOrSlash_of_labels labels

theorem scan_to_mark {rest : Chars} {mark : Nat} (plain : ∀ character ∈ name, isNotColonOrSlash character = true)
    (stops : isNotColonOrSlash mark = false) :
    (name ++ mark :: rest).takeWhile isNotColonOrSlash = name ∧
      (name ++ mark :: rest).dropWhile isNotColonOrSlash = mark :: rest := by
  simp [takeWhile_append_of_pos plain, dropWhile_append_of_pos plain, stops]

theorem isDigit_ne_slash {character : Nat} (digit : isASCIIDigit character = true) :
    (character != '/'.toNat) = true := by
  rw [bne_iff_ne]
  rintro rfl
  cases digit

theorem PortPart.Spelled.cases {port : PortPart} (spelled : port.Spelled string) :
    string = [] ∧ port = .absent ∨ ∃ digits, string = ':'.toNat :: digits ∧ digits ≠ [] ∧
      (∀ character ∈ digits, (character != '/'.toNat) = true) ∧
      parsePort digits = some (port.value, port.hasWildcard) := by
  cases port with
  | absent => exact .inl ⟨spelled, rfl⟩
  | any => exact .inr ⟨text "*", spelled, by decide, by decide, rfl⟩
  | number port =>
    obtain ⟨digits, rfl, nonempty, all, rfl, bound⟩ := spelled
    refine .inr ⟨digits, rfl, nonempty, fun _ member => isDigit_ne_slash (all_eq_true.mp all _ member), ?_⟩
    have noStar : digits ≠ text "*" := by
      rintro rfl
      cases all
    simp [parsePort, nonempty, noStar, all, bound, value, hasWildcard]

theorem splitAuthority_of_parts {port : Chars} (plain : ∀ character ∈ name, isNotColonOrSlash character = true)
    (ofPort : port = [] ∨ ∃ digits, port = ':'.toNat :: digits ∧ ∀ character ∈ digits, (character != '/'.toNat) = true)
    (ofPath : path = [] ∨ path.head? = some '/'.toNat) :
    splitAuthority (name ++ (port ++ path)) = (name, port, path) := by
  have behindPort : path.takeWhile (· != '/'.toNat) = [] ∧ path.dropWhile (· != '/'.toNat) = path ∧
      path.takeWhile isNotColonOrSlash = [] ∧ path.dropWhile isNotColonOrSlash = path ∧
      path.head? ≠ some ':'.toNat := by
    rcases ofPath with rfl | slash
    · exact ⟨rfl, rfl, rfl, rfl, nofun⟩
    · obtain ⟨rest, rfl⟩ := head?_eq_some_iff.mp slash
      exact ⟨rfl, rfl, rfl, rfl, by simp⟩
  obtain ⟨noPort, whole, noName, behind, noColon⟩ := behindPort
  rcases ofPort with rfl | ⟨digits, rfl, inside⟩
  · simp only [splitAuthority, takeWhile_append_of_pos plain, dropWhile_append_of_pos plain]
    rw [nil_append, noName, behind, if_neg noColon, append_nil]
  · have scanned := @scan_to_mark _ (digits ++ path) _ plain (show isNotColonOrSlash ':'.toNat = false from rfl)
    have portPlain : ∀ character ∈ ':'.toNat :: digits, (character != '/'.toNat) = true :=
      forall_mem_cons.mpr ⟨rfl, inside⟩
    simp only [splitAuthority, cons_append, scanned]
    rw [head?_cons, if_pos rfl, ← cons_append, takeWhile_append_of_pos portPlain, dropWhile_append_of_pos portPlain,
      noPort, whole, append_nil]

theorem parseAuthority_of_spelled {host : HostPart} {port : PortPart} {hostText portText pathText : Chars}
    (scheme : Chars) (ofHost : host.Spelled hostText) (ofPort : port.Spelled portText)
    (ofPath : PathSpelled policy path pathText) :
    parseAuthority policy scheme (hostText ++ (portText ++ pathText)) =
      some ⟨scheme, host.name, port.value, path, host.hasWildcard, port.hasWildcard⟩ := by
  have parts : splitAuthority (hostText ++ (portText ++ pathText)) = (hostText, portText, pathText) := by
    refine splitAuthority_of_parts ofHost.plain ?_ (ofPath.imp And.left And.left)
    exact ofPort.cases.imp And.left fun ⟨digits, same, _, inside, _⟩ => ⟨digits, same, inside⟩
  have named : hostText.isEmpty = false := by
    cases hostText with
    | nil => cases ofHost.parseHost
    | cons => rfl
  have decoded : (if pathText.isEmpty then [] else parsePath policy pathText) = path := by
    rcases ofPath with ⟨rfl, rfl⟩ | ⟨slash, rfl⟩
    · rfl
    · obtain ⟨rest, rfl⟩ := head?_eq_some_iff.mp slash
      rfl
  have number : (if portText.isEmpty then some (none, false) else parsePort portText.tail) =
      some (port.value, port.hasWildcard) := by
    rcases ofPort.cases with ⟨rfl, rfl⟩ | ⟨digits, rfl, _, _, parses⟩
    · rfl
    · exact parses
  simp only [parseAuthority, parts, named, Bool.and_false, Bool.false_and, Bool.false_eq_true, if_false,
    ofHost.parseHost, Option.bind_some, number, Option.map_some, decoded]

theorem scheme_plain (named : parseScheme name = some scheme) :
    ∀ character ∈ name, isNotColonOrSlash character = true := by
  cases name with
  | nil => cases named
  | cons first rest =>
    obtain ⟨valid, _⟩ := Option.ite_none_right_eq_some.mp named
    rw [Bool.and_eq_true, all_eq_true] at valid
    refine forall_mem_cons.mpr ⟨isNotColonOrSlash_of_host (by simp [isHostCharacter, isASCIIAlphanumeric, valid.1]), ?_⟩
    intro character member
    have inScheme := valid.2 character member
    rw [isSchemeContinuationCharacter, Bool.or_eq_true] at inScheme
    rcases inScheme with letter | mark
    · exact isNotColonOrSlash_of_host (by simp [isHostCharacter, letter])
    · revert mark
      have marks : ∀ character ∈ text "+-.", isNotColonOrSlash character = true := by decide
      exact fun mark => marks character (of_decide_eq_true mark)

/-- What is spelled is stored: no text has two readings. -/
theorem parse_of_spelled {expression : Expression} (spelled : expression.Spelled policy string) :
    parseSchemeOrHost policy string = some expression.stored := by
  have colon : isNotColonOrSlash ':'.toNat = false := rfl
  have slash : isNotColonOrSlash '/'.toNat = false := rfl
  cases expression with
  | schemeSource name =>
    obtain ⟨named, rfl⟩ := spelled
    have scanned := @scan_to_mark _ [] _ (scheme_plain named) colon
    simp only [parseSchemeOrHost, show text ":" = [':'.toNat] from rfl, scanned]
    rw [if_neg (by decide), if_pos (by rfl), named]
    rfl
  | hostSource scheme host port path =>
    obtain ⟨hostText, portText, pathText, rfl, named, ofHost, ofPort, ofPath⟩ := spelled
    have parses := fun scheme => parseAuthority_of_spelled scheme ofHost ofPort ofPath
    cases scheme with
    | some scheme =>
      have ofScheme := named scheme rfl
      have more : (hostText ++ (portText ++ pathText)).isEmpty = false := by
        cases hostText with
        | nil => cases ofHost.parseHost
        | cons => rfl
      generalize hostText ++ (portText ++ pathText) = rest at parses more ⊢
      have split : (scheme ++ text "://") ++ rest = scheme ++ ':'.toNat :: '/'.toNat :: '/'.toNat :: rest := by
        simp [text]
      have scanned := @scan_to_mark _ ('/'.toNat :: '/'.toNat :: rest) _ (scheme_plain ofScheme) colon
      simp only [Option.elim_some, split, parseSchemeOrHost, scanned]
      rw [if_neg (by decide), if_neg nofun, if_pos (by rfl), ofScheme]
      simp only [Option.bind_some, tail_cons, more]
      exact parses scheme
    | none =>
      -- without a scheme every branch comes to what `parseAuthority` gives
      rw [Option.elim_none, nil_append]
      refine Eq.trans ?_ (parses [])
      have plain := ofHost.plain
      rcases ofPort.cases with ⟨rfl, rfl⟩ | ⟨digits, rfl, nonempty, inside, _⟩
      · have parts := splitAuthority_of_parts plain (.inl rfl) (ofPath.imp And.left And.left)
        rw [parseAuthority_portless parts, nil_append]
        rcases ofPath with ⟨rfl, rfl⟩ | ⟨begins, rfl⟩
        · rw [parseSchemeOrHost, takeWhile_append_of_pos plain, dropWhile_append_of_pos plain, takeWhile_nil,
            dropWhile_nil, append_nil]
          rfl
        · obtain ⟨rest, rfl⟩ := head?_eq_some_iff.mp begins
          simp only [parseSchemeOrHost, scan_to_mark plain slash]
          rfl
      · cases digits with
        | nil => exact absurd rfl nonempty
        | cons digit digits =>
          have noSlash := bne_iff_ne.mp (inside digit mem_cons_self)
          simp only [parseSchemeOrHost, cons_append, scan_to_mark plain colon]
          rw [if_neg (by decide), if_neg nofun, head?_cons, if_neg (fun same => noSlash (Option.some.inj same))]

/-- No expression begins with what is compared as an apostrophe. -/
theorem Expression.Spelled.head {expression : Expression} (spelled : expression.Spelled policy string) :
    ∃ first rest, string = first :: rest ∧ toASCIILowerUnchecked first ≠ '\''.toNat := by
  have letters : ∀ character, isHostCharacter character = true ∨ character = '*'.toNat →
      toASCIILowerUnchecked character ≠ '\''.toNat := by
    intro character allowed same
    have small : character ≤ '\''.toNat := same ▸ Nat.left_le_or
    revert allowed same
    exact (show ∀ character ≤ '\''.toNat, isHostCharacter character = true ∨ character = '*'.toNat →
      toASCIILowerUnchecked character = '\''.toNat → False by decide) character small
  have ofScheme : ∀ {name}, parseScheme name = some name → ∃ first rest, name = first :: rest ∧
      toASCIILowerUnchecked first ≠ '\''.toNat := by
    intro name named
    cases name with
    | nil => cases named
    | cons first rest =>
      obtain ⟨valid, _⟩ := Option.ite_none_right_eq_some.mp named
      refine ⟨first, rest, rfl, letters first (.inl ?_)⟩
      simp [isHostCharacter, isASCIIAlphanumeric, (Bool.and_eq_true_iff.mp valid).1]
  cases expression with
  | schemeSource name =>
    obtain ⟨named, rfl⟩ := spelled
    obtain ⟨first, rest, rfl, plain⟩ := ofScheme named
    exact ⟨first, _, rfl, plain⟩
  | hostSource scheme host port path =>
    obtain ⟨hostText, portText, pathText, rfl, named, ofHost, _⟩ := spelled
    cases scheme with
    | some scheme =>
      obtain ⟨first, rest, rfl, plain⟩ := ofScheme (named scheme rfl)
      exact ⟨first, _, rfl, plain⟩
    | none =>
      cases host with
      | any =>
        subst ofHost
        exact ⟨_, _, rfl, letters _ (.inr rfl)⟩
      | below name =>
        obtain ⟨rfl, _⟩ := ofHost
        exact ⟨_, _, rfl, letters _ (.inr rfl)⟩
      | named name =>
        obtain ⟨rfl, nonempty, labels⟩ := ofHost
        cases hostText with
        | nil => exact absurd rfl nonempty
        | cons first rest =>
          refine ⟨first, _, rfl, letters first (.inl ?_)⟩
          rw [hostLabels] at labels
          split at labels
          · assumption
          · cases labels

theorem not_keyword {first : Nat} {rest keyword : Chars} (plain : toASCIILowerUnchecked first ≠ '\''.toNat)
    (quoted : keyword.head? = some '\''.toNat) : equalLettersIgnoringASCIICase (first :: rest) keyword = false := by
  obtain ⟨others, rfl⟩ := head?_eq_some_iff.mp quoted
  simp only [equalLettersIgnoringASCIICase, map_cons, beq_eq_false_iff_ne]
  exact fun same => plain (cons.inj same).1

theorem not_nonce_or_hash {first : Nat} {rest : Chars} (plain : toASCIILowerUnchecked first ≠ '\''.toNat) :
    (parseNonceSource (first :: rest) || parseHashSource policy (first :: rest)) = false := by
  have apart : first ≠ '\''.toNat := by
    rintro rfl
    exact plain rfl
  have lower : toASCIILower first ≠ '\''.toNat := by
    rw [toASCIILower]
    split
    · next upper =>
      simp only [isASCIIUpper, Bool.and_eq_true, decide_eq_true_eq] at upper
      have letter : 'A'.toNat = 65 := rfl
      have mark : '\''.toNat = 39 := rfl
      omega
    · exact apart
  have nonce : parseNonceSource (first :: rest) = false := by
    have differs : equalIgnoringASCIICase ((first :: rest).take 7) (text "'nonce-") = false := by
      rw [equalIgnoringASCIICase, take_succ_cons, map_cons, beq_eq_false_iff_ne]
      exact fun same => lower (cons.inj same).1
    simp only [parseNonceSource, differs, Bool.false_and]
  have hash : parseHashSource policy (first :: rest) = false := by
    have head : ((first :: rest).head? == some '\''.toNat) = false := by
      rw [head?_cons, beq_eq_false_iff_ne]
      exact fun same => apart (Option.some.inj same)
    rw [parseHashSource, head, Bool.false_and]
  rw [nonce, hash, Bool.or_false]

theorem parseSource_of_spelled {expression : Expression} (spelled : expression.Spelled policy string)
    (noStar : string ≠ text "*") : parseSource policy string = some (.source expression.stored) := by
  obtain ⟨first, rest, rfl, plain⟩ := spelled.head
  have none : equalLettersIgnoringASCIICase (first :: rest) (text "'none'") = false := not_keyword plain rfl
  have self : equalLettersIgnoringASCIICase (first :: rest) (text "'self'") = false := not_keyword plain rfl
  have inline : equalLettersIgnoringASCIICase (first :: rest) (text "'unsafe-inline'") = false := not_keyword plain rfl
  have eval : equalLettersIgnoringASCIICase (first :: rest) (text "'unsafe-eval'") = false := not_keyword plain rfl
  simp only [parseSource, none, self, inline, eval, if_neg noStar, parse_of_spelled spelled, isEmpty_cons,
    Bool.false_eq_true, if_false]
  rfl

theorem parseSource_spec (parses : parseSource policy string = some parsed) :
    match parsed with
    | .star => string = text "*"
    | .self => equalLettersIgnoringASCIICase string (text "'self'") = true
    | .source source => parseSchemeOrHost policy string = some source
    | _ => True := by
  unfold parseSource at parses
  repeat' split at parses
  all_goals cases parsed <;> simp_all

end Odyssey.ContentSecurity
