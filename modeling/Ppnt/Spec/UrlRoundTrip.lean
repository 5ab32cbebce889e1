import Ppnt.Spec.UrlSyntax

/-!
# URLs are read back

`href` writes the components of a URL with the delimiters between them.  `Canonical` is what is true
of a URL that `parse` has returned, and what `parse` needs to find the delimiters again.
-/

namespace Ppnt.Spec

open Ppnt.Native Url

/-! ## Canonical URLs -/

/-- The components do not hold the delimiters around them, and are in lower case and without dot
    segments where `parse` makes them so. -/
structure Canonical (url : Url) : Prop where
  scheme_valid : validScheme url.scheme = true
  scheme_lower : toLowerAsciiStr url.scheme = url.scheme
  scheme_colon : 58 ∉ url.scheme
  userInfo : 64 ∉ url.userInfo ∧ InAuthority url.userInfo
  host_lower : toLowerAsciiStr url.host = url.host
  host : 64 ∉ url.host ∧ 91 ∉ url.host ∧ 93 ∉ url.host ∧ InAuthority url.host
  port : -2 ^ 31 ≤ url.port ∧ url.port < 2 ^ 31
  path_abs : AbsPath url.path
  path_dots : removeDotSegments url.path = url.path
  path : 63 ∉ url.path ∧ 35 ∉ url.path
  query : 35 ∉ url.query

/-- A component that is written only if it is not empty. -/
def nonEmpty (s : List UInt8) : Option (List UInt8) := if s = [] then none else some s

@[simp] theorem getD_nonEmpty (s : List UInt8) : (nonEmpty s).getD [] = s := by
  unfold nonEmpty
  split
  · exact Eq.symm ‹_›
  · rfl

private theorem mem_nonEmpty {s t : List UInt8} (h : t ∈ nonEmpty s) : t = s := by
  unfold nonEmpty at h
  split at h
  · exact absurd h (by simp)
  · exact (Option.some.inj h).symm

/-- The port that is written. -/
def portText (port : Int) : Option (List UInt8) := if port = -1 then none else some (formatInt port)

/-- The authority of `href`. -/
def hrefAuthority (url : Url) : List UInt8 :=
  withUserInfo (nonEmpty url.userInfo)
    (hostPort (decide (58 ∈ url.host)) url.host (portText url.port))

/-- `href` in terms of the parts that `parse` looks for. -/
private theorem href_eq {url : Url} (h : Canonical url) :
    url.href = url.scheme ++ ascii "://" ++ hrefAuthority url ++
      (url.path ++ behind 63 (nonEmpty url.query) ++ behind 35 (nonEmpty url.fragment)) := by
  have huser : (if url.userInfo ≠ [] then url.userInfo ++ ascii "@" else []) =
      ((nonEmpty url.userInfo).map (· ++ [64])).getD [] := by
    by_cases hempty : url.userInfo = [] <;> simp [nonEmpty, hempty, ascii]
  -- a canonical host does not start with a bracket
  have hhead : url.host.head? ≠ some 91 := fun hhead => h.host.2.1 (List.mem_of_head? hhead)
  have hhost : (if find 58 url.host ≠ none ∧ url.host.head? ≠ some 91 then
      ascii "[" ++ url.host ++ ascii "]" else url.host) =
      if decide (58 ∈ url.host) then 91 :: (url.host ++ [93]) else url.host := by
    have hfind : find 58 url.host ≠ none ↔ 58 ∈ url.host := by
      rw [ne_eq, find_eq_none_iff, not_not]
    by_cases hcolon : 58 ∈ url.host <;> simp [hfind, hcolon, hhead, ascii]
  have hport : (if url.port ≠ -1 then ascii ":" ++ formatInt url.port else []) =
      behind 58 (portText url.port) := by
    by_cases hnone : url.port = -1 <;> simp [portText, hnone, ascii]
  have hquery : (if url.query ≠ [] then ascii "?" ++ url.query else []) =
      behind 63 (nonEmpty url.query) := by
    by_cases hempty : url.query = [] <;> simp [nonEmpty, hempty, ascii]
  have hfragment : (if url.fragment ≠ [] then ascii "#" ++ url.fragment else []) =
      behind 35 (nonEmpty url.fragment) := by
    by_cases hempty : url.fragment = [] <;> simp [nonEmpty, hempty, ascii]
  rw [href, huser, hhost, hport, hquery, hfragment, hrefAuthority, withUserInfo, hostPort]
  simp only [List.append_assoc]

private theorem not_mem_hostPort {b : UInt8} (hb : b ∈ delimiters) (hbracket : b ≠ 91 ∧ b ≠ 93)
    (hcolon : b ≠ 58) {host : List UInt8} (hhost : b ∉ host) (bracketed : Bool) (port : Int) :
    b ∉ hostPort bracketed host (portText port) := by
  have hport : b ∉ behind 58 (portText port) := by
    unfold portText
    split
    · simp
    · simp [hcolon, not_mem_formatInt hb port]
  cases bracketed <;> simp [hostPort, hhost, hport, hbracket.1, hbracket.2]

/-- The authority of `href` ends where the path starts. -/
private theorem inAuthority_href {url : Url} (h : Canonical url) :
    InAuthority (hrefAuthority url) := by
  have hends : ∀ d ∈ ascii "/?#", d ∈ delimiters ∧ d ≠ 91 ∧ d ≠ 93 ∧ d ≠ 58 ∧ d ≠ 64 := by
    simp [delimiters, ascii]
  intro b hb hend
  obtain ⟨hdelim, hopen, hclose, hcolon, hat⟩ := hends b hend
  rcases List.mem_append.mp hb with huser | hhost
  · unfold nonEmpty at huser
    split at huser
    · exact absurd huser (by simp)
    · rcases List.mem_append.mp huser with hmem | hmem
      · exact h.userInfo.2 b hmem hend
      · exact hat (List.mem_singleton.mp hmem)
  · exact not_mem_hostPort hdelim ⟨hopen, hclose⟩ hcolon (fun hmem => h.host.2.2.2 b hmem hend) _ _
      hhost

/-- The authority of `href` gives back user info, host and port. -/
private theorem parseAuthority_href {url : Url} (h : Canonical url) (scheme : List UInt8) :
    parseAuthority (hrefAuthority url) { scheme := scheme } =
      .ok { scheme := scheme, userInfo := url.userInfo, host := url.host, port := url.port } := by
  have huser : ∀ u ∈ nonEmpty url.userInfo, 64 ∉ u := by
    intro u hu
    rw [mem_nonEmpty hu]
    exact h.userInfo.1
  have hat : 64 ∉ hostPort (decide (58 ∈ url.host)) url.host (portText url.port) :=
    not_mem_hostPort (by decide) (by decide) (by decide) h.host.1 _ _
  have hport : ∀ p ∈ portText url.port, 58 ∉ p ∧ 93 ∉ p := by
    intro p hp
    unfold portText at hp
    split at hp
    · exact absurd hp (by simp)
    · rw [← Option.some.inj hp]
      exact ⟨not_mem_formatInt (by decide) _, not_mem_formatInt (by decide) _⟩
  -- a host with a colon is written in brackets
  have hcolon : decide (58 ∈ url.host) = true ∨ portText url.port ≠ none ∨ 58 ∉ url.host := by
    by_cases hmem : 58 ∈ url.host
    · exact .inl (decide_eq_true hmem)
    · exact .inr (.inr hmem)
  rw [hrefAuthority, parseAuthority_withUserInfo huser hat, getD_nonEmpty,
    parseHostPort_hostPort ⟨h.host.2.1, h.host.2.2.1⟩ hport hcolon, h.host_lower]
  by_cases hnone : url.port = -1
  · simp [portText, hnone]
  · simp [portText, hnone, fromChars?_formatInt h.port.1 h.port.2]

/-- A canonical URL is read back. -/
theorem parse_href_of_canonical {url : Url} (h : Canonical url) : parse url.href = .ok url := by
  have hquery : ∀ q ∈ nonEmpty url.query, 35 ∉ q := by
    intro q hq
    rw [mem_nonEmpty hq]
    exact h.query
  rw [href_eq h, parse_absolute h.scheme_colon (inAuthority_href h)
    (behindAuthority_append h.path_abs _ _),
    h.scheme_lower, if_pos h.scheme_valid, parseAuthority_href h, Except.map,
    parseRest_append h.path hquery, getD_nonEmpty, getD_nonEmpty, h.path_dots]

/-! ## What `parse` returns -/

/-- Brackets occur only as one pair around the whole host. -/
def PlainHost (text : List UInt8) : Prop :=
  (91 ∉ text ∧ 93 ∉ text) ∨
    ∃ host port, text = hostPort true host port ∧ (91 ∉ host ∧ 93 ∉ host) ∧
      ∀ p ∈ port, 58 ∉ p ∧ 91 ∉ p ∧ 93 ∉ p

/-- A plain host is a host and a port. -/
private theorem PlainHost.exists_hostPort {text : List UInt8} (h : PlainHost text) :
    ∃ bracketed host port, text = hostPort bracketed host port ∧ (91 ∉ host ∧ 93 ∉ host) ∧
      (∀ p ∈ port, 58 ∉ p ∧ 93 ∉ p) ∧ (bracketed = true ∨ port ≠ none ∨ 58 ∉ host) := by
  rcases h with hplain | ⟨host, port, rfl, hhost, hport⟩
  · cases hfind : rfind 58 text with
    | none =>
      have hcolon := rfind_eq_none_iff.mp hfind
      exact ⟨false, text, none, by simp [hostPort], hplain, by simp, .inr (.inr hcolon)⟩
    | some i =>
      -- the port stands behind the last colon
      obtain ⟨host, p, rfl, hp, -⟩ := eq_append_of_rfind hfind
      simp only [List.mem_append, List.mem_cons, not_or] at hplain
      refine ⟨false, host, some p, rfl, ⟨hplain.1.1, hplain.2.1⟩, ?_, .inr (.inl (by simp))⟩
      intro p' hp'
      rw [← Option.some.inj hp']
      exact ⟨hp, hplain.2.2.2⟩
  · exact ⟨true, host, port, rfl, hhost, fun p hp => ⟨(hport p hp).1, (hport p hp).2.2⟩, .inl rfl⟩

private theorem exists_withUserInfo {authority : List UInt8} (hat : authority.count 64 ≤ 1) :
    ∃ userInfo host, authority = withUserInfo userInfo host ∧ behindUserInfo authority = host ∧
      (∀ u ∈ userInfo, 64 ∉ u) ∧ 64 ∉ host := by
  obtain ⟨a, text, rfl, ha⟩ := exists_cut 64 authority
  rw [behindUserInfo, cutFirst_append ha]
  cases text with
  | none =>
    exact ⟨none, a, by simp [withUserInfo], by simp, by simp, ha⟩
  | some s =>
    refine ⟨some a, s, by simp [withUserInfo], rfl, ?_, ?_⟩
    · intro u hu
      rwa [← Option.some.inj hu]
    · -- a second `@` would be one too many
      rw [← List.count_pos_iff]
      rw [behind_some, List.count_append, List.count_cons_self] at hat
      omega

private theorem mem_hostPort {bracketed : Bool} {host : List UInt8} {port : Option (List UInt8)}
    {b : UInt8} (hb : b ∈ host) : b ∈ hostPort bracketed host port := by
  cases bracketed <;> simp [hostPort, hb]

/-- What `parse_authority` makes of a plain authority. -/
private theorem parseAuthority_ok {authority : List UInt8} {url url' : Url}
    (hauthority : InAuthority authority) (hcount : authority.count 64 ≤ 1)
    (hplain : PlainHost (behindUserInfo authority)) (huser : url.userInfo = [])
    (h : parseAuthority authority url = .ok url') :
    ∃ userInfo host port, url' = { url with userInfo := userInfo, host := host, port := port } ∧
      (64 ∉ userInfo ∧ InAuthority userInfo) ∧ toLowerAsciiStr host = host ∧
      (64 ∉ host ∧ 91 ∉ host ∧ 93 ∉ host ∧ InAuthority host) ∧ -2 ^ 31 ≤ port ∧ port < 2 ^ 31 := by
  obtain ⟨userInfo, text, rfl, hbehind, hat, hat'⟩ := exists_withUserInfo hcount
  rw [hbehind] at hplain
  obtain ⟨bracketed, host, port, rfl, hhost, hport, hcolon⟩ := hplain.exists_hostPort
  rw [parseAuthority_withUserInfo hat hat', parseHostPort_hostPort hhost hport hcolon, huser] at h
  have huserInfo : 64 ∉ userInfo.getD [] ∧ InAuthority (userInfo.getD []) := by
    cases userInfo with
    | none => exact ⟨by simp, by simp [InAuthority]⟩
    | some u =>
      refine ⟨hat u rfl, fun b hb => hauthority b ?_⟩
      have hb : b ∈ u := hb
      simp [withUserInfo, hb]
  -- the host is part of the authority, and lower case makes no delimiters
  have hlower : 64 ∉ toLowerAsciiStr host ∧ 91 ∉ toLowerAsciiStr host ∧ 93 ∉ toLowerAsciiStr host ∧
      InAuthority (toLowerAsciiStr host) := by
    refine ⟨?_, ?_, ?_, fun b hb hend => ?_⟩
    · rw [mem_toLowerAsciiStr (by decide)]
      exact fun hb => hat' (mem_hostPort hb)
    · rw [mem_toLowerAsciiStr (by decide)]
      exact hhost.1
    · rw [mem_toLowerAsciiStr (by decide)]
      exact hhost.2
    · have hdelim : ∀ d ∈ ascii "/?#", d ∈ delimiters := by simp [delimiters, ascii]
      rw [mem_toLowerAsciiStr (hdelim b hend)] at hb
      exact hauthority b (List.mem_append_right _ (mem_hostPort hb)) hend
  cases port with
  | none =>
    exact ⟨userInfo.getD [], toLowerAsciiStr host, -1, (Except.ok.inj h).symm, huserInfo,
      toLowerAsciiStr_idem host, hlower, by decide, by decide⟩
  | some p =>
    cases hnum : fromChars? p with
    | none =>
      simp only [hnum] at h
      exact absurd h (by simp [makeErrResult])
    | some v =>
      simp only [hnum] at h
      exact ⟨userInfo.getD [], toLowerAsciiStr host, v, (Except.ok.inj h).symm, huserInfo,
        toLowerAsciiStr_idem host, hlower, range_of_fromChars? hnum⟩

/-- A text `scheme://authority…` that `parse` accepts, with at most one `@` in the authority and
    brackets only around the whole host, is written by `href` so that `parse` returns the same
    URL. -/
theorem parse_href (scheme authority rest : List UInt8) (url : Url) (hscheme : 58 ∉ scheme)
    (hauthority : InAuthority authority) (hrest : BehindAuthority rest)
    (hat : authority.count 64 ≤ 1) (hplain : PlainHost (behindUserInfo authority))
    (hparse : parse (scheme ++ ascii "://" ++ authority ++ rest) = .ok url) :
    parse url.href = .ok url := by
  -- what `parse` returns is canonical: lower case, and no dot segments are left
  apply parse_href_of_canonical
  rw [parse_absolute hscheme hauthority hrest] at hparse
  split at hparse
  case isFalse => exact absurd hparse (by simp [makeErrResult])
  case isTrue hvalid =>
    cases hauth : parseAuthority authority { scheme := toLowerAsciiStr scheme } with
    | error e =>
      rw [hauth] at hparse
      exact absurd hparse (by simp [Except.map])
    | ok url' =>
      obtain ⟨userInfo, host, port, rfl, huserInfo, hlower, hhost, hport⟩ :=
        parseAuthority_ok hauthority hat hplain rfl hauth
      obtain ⟨path, query, fragment, rfl, hpath, hquery⟩ := exists_pathQueryFragment rest
      rw [List.append_assoc] at hrest
      have habs := absPath_of_behindAuthority hpath hrest
      rw [hauth, Except.map, parseRest_append hpath hquery] at hparse
      obtain rfl := Except.ok.inj hparse
      have hscheme' : 58 ∉ toLowerAsciiStr scheme := by
        rw [mem_toLowerAsciiStr (by decide)]
        exact hscheme
      have hquery' : 35 ∉ query.getD [] := by
        cases query with
        | none => simp
        | some q => exact hquery q rfl
      exact {
        scheme_valid := hvalid
        scheme_lower := toLowerAsciiStr_idem scheme
        scheme_colon := hscheme'
        userInfo := huserInfo
        host_lower := hlower
        host := hhost
        port := hport
        path_abs := absPath_removeDotSegments habs
        path_dots := removeDotSegments_idem habs
        path := ⟨fun hb => hpath.1 (mem_removeDotSegments habs hb),
          fun hb => hpath.2 (mem_removeDotSegments habs hb)⟩
        query := hquery' }

/-- Upper case, an address with colons, a port with a sign and dot segments. -/
def oddUrl : Url where
  scheme := ascii "http"
  userInfo := ascii "U:[p"
  host := ascii "::f"
  port := -7
  path := ascii "/a/c"
  query := ascii "?q"
  fragment := ascii "#"

theorem parse_href_oddUrl :
    parse (ascii "HTTP://U:[p@[::F]:-07/./a/b/../c??q##") = .ok oddUrl ∧
      oddUrl.href = ascii "http://U:[p@[::f]:-7/a/c??q##" ∧ parse oddUrl.href = .ok oddUrl := by
  have hparse : parse (ascii "HTTP" ++ ascii "://" ++ ascii "U:[p@[::F]:-07" ++
      ascii "/./a/b/../c??q##") = .ok oddUrl := by
    decide +kernel
  have hplain : PlainHost (behindUserInfo (ascii "U:[p@[::F]:-07")) :=
    .inr ⟨ascii "::F", some (ascii "-07"), by decide, by decide, by decide⟩
  refine ⟨hparse, by decide, ?_⟩
  exact parse_href (ascii "HTTP") (ascii "U:[p@[::F]:-07") (ascii "/./a/b/../c??q##") oddUrl
    (by decide) (by decide) (by decide) (by decide) hplain hparse

end Ppnt.Spec
