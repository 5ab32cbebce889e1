import Ppnt.Spec.RequestEncoding
import Ppnt.Spec.UrlResolve

/-!
# The authority of a request

`serialize_to_h1` writes the host of the URL without the brackets that `parse` took off, and leaves
out a port that is 80 or 443 whatever the scheme is.  So a server may read another host or port than
the URL has.
-/

namespace Ppnt.Spec

open Ppnt.Native Url OutgoingRequest

/-! ## Brackets and user info -/

theorem length_unbracket_le (host : List UInt8) : (unbracket host).length ≤ host.length := by
  unfold unbracket
  split
  · simp only [List.length_dropLast, List.length_tail]
    omega
  · exact Nat.le_refl _

theorem mem_of_mem_unbracket {b : UInt8} {host : List UInt8} (hb : b ∈ unbracket host) :
    b ∈ host := by
  unfold unbracket at hb
  split at hb
  · exact List.mem_of_mem_tail ((List.dropLast_sublist _).mem hb)
  · exact hb

private theorem toLowerAsciiStr_unbracket {host : List UInt8} (h : toLowerAsciiStr host = host) :
    toLowerAsciiStr (unbracket host) = unbracket host := by
  unfold unbracket
  split
  · rw [toLowerAsciiStr, List.map_dropLast, List.map_tail, ← toLowerAsciiStr, h]
  · exact h

theorem behindUserInfo_of_not_mem {authority : List UInt8} (h : 64 ∉ authority) :
    behindUserInfo authority = authority := by
  have hcut := cutFirst_append h none
  rw [behind_none, List.append_nil] at hcut
  rw [behindUserInfo, hcut]
  rfl

/-- The text behind the user info is shorter, unless there is none. -/
theorem length_behindUserInfo_lt {authority : List UInt8} (h : 64 ∈ authority) :
    (behindUserInfo authority).length < authority.length := by
  obtain ⟨a, text, rfl, ha⟩ := exists_cut 64 authority
  cases text with
  | none => exact absurd (by simpa using h) ha
  | some s =>
    rw [behindUserInfo, cutFirst_append ha]
    simp only [Option.getD_some, behind_some, List.length_append, List.length_cons]
    omega

theorem length_behindUserInfo_le (authority : List UInt8) :
    (behindUserInfo authority).length ≤ authority.length := by
  by_cases h : 64 ∈ authority
  · exact Nat.le_of_lt (length_behindUserInfo_lt h)
  · rw [behindUserInfo_of_not_mem h]

theorem behindUserInfo_append {s t : List UInt8} (ht : 64 ∉ t) :
    behindUserInfo (s ++ t) = behindUserInfo s ++ t := by
  obtain ⟨a, text, rfl, ha⟩ := exists_cut 64 s
  cases text with
  | none =>
    rw [behind_none, List.append_nil, behindUserInfo_of_not_mem ha, behindUserInfo_of_not_mem]
    rw [List.mem_append, not_or]
    exact ⟨ha, ht⟩
  | some s =>
    have happend : a ++ behind 64 (some s) ++ t = a ++ behind 64 (some (s ++ t)) := by simp
    rw [happend, behindUserInfo, behindUserInfo, cutFirst_append ha, cutFirst_append ha]
    rfl

theorem mem_of_mem_behindUserInfo {b : UInt8} {authority : List UInt8}
    (hb : b ∈ behindUserInfo authority) : b ∈ authority := by
  obtain ⟨a, text, rfl, ha⟩ := exists_cut 64 authority
  rw [behindUserInfo, cutFirst_append ha] at hb
  cases text with
  | none => exact hb
  | some s => exact List.mem_append_right a (List.mem_cons_of_mem 64 hb)

/-! ## What `parse` returns -/

/-- The host is in lower case and part of an authority, and the port is an `int`. -/
structure ParsedHost (url : Url) : Prop where
  lower : toLowerAsciiStr url.host = url.host
  host : InAuthority url.host
  port : -2 ^ 31 ≤ url.port ∧ url.port < 2 ^ 31

/-- Lower case and brackets make no end of the authority. -/
private theorem inAuthority_unbracket {host : List UInt8} (h : InAuthority host) :
    InAuthority (unbracket (toLowerAsciiStr host)) := by
  have hdelim : ∀ d ∈ ascii "/?#", d ∈ delimiters := by simp [delimiters, ascii]
  intro b hb hend
  have hmem := (mem_toLowerAsciiStr (hdelim b hend)).mp (mem_of_mem_unbracket hb)
  exact h b hmem hend

/-- What the host and the port of a parsed URL can be. -/
private theorem parsedHost_of_parseHostPort {text : List UInt8} {url url' : Url}
    (htext : InAuthority text) (h : parseHostPort text url = .ok url') : ParsedHost url' := by
  have hlower := fun host => toLowerAsciiStr_unbracket (toLowerAsciiStr_idem host)
  by_cases hport : ∃ host port, PortPart text host port
  · obtain ⟨host, port, hport⟩ := hport
    rw [parseHostPort_of_port hport] at h
    have hhost : InAuthority host := by
      intro b hb
      apply htext b
      rw [hport.1]
      exact List.mem_append_left _ hb
    cases hnum : fromChars? port with
    | none =>
      simp only [hnum] at h
      exact absurd h (by simp [makeErrResult])
    | some v =>
      simp only [hnum] at h
      rw [← Except.ok.inj h]
      exact ⟨hlower host, inAuthority_unbracket hhost, range_of_fromChars? hnum⟩
  · push Not at hport
    rw [parseHostPort_of_no_port hport] at h
    rw [← Except.ok.inj h]
    have hnone : -2 ^ 31 ≤ (-1 : Int) ∧ (-1 : Int) < 2 ^ 31 := by decide
    exact ⟨hlower text, inAuthority_unbracket htext, hnone⟩

/-- The authority ends at the first character that can end it. -/
private theorem exists_authority (text : List UInt8) :
    ∃ authority rest, text = authority ++ rest ∧ InAuthority authority ∧ BehindAuthority rest := by
  refine ⟨text.takeWhile (· ∉ ascii "/?#"), text.dropWhile (· ∉ ascii "/?#"),
    List.takeWhile_append_dropWhile.symm, fun b hb => ?_, fun b hb => ?_⟩
  · simpa using List.mem_takeWhile_imp hb
  · have hnot := List.head?_dropWhile_not (fun b => decide (b ∉ ascii "/?#")) text
    rw [Option.mem_def.mp hb] at hnot
    simpa using hnot

/-- What is true of the host and the port that `parse` returns. -/
theorem parsedHost_of_parse {input : List UInt8} {url : Url} (h : parse input = .ok url) :
    ParsedHost url := by
  obtain ⟨scheme, text, rfl, hscheme⟩ := exists_cut 58 input
  cases text with
  | none =>
    rw [parse, find_behind hscheme] at h
    split at h <;> exact absurd h (by simp [makeErrResult])
  | some text =>
    cases hslashes : (ascii "//").isPrefixOf text with
    | false =>
      rw [behind_some, parse_noAuthority hscheme hslashes] at h
      split at h
      · rw [← Except.ok.inj h]
        exact ⟨rfl, by simp [parseRest, InAuthority], by simp [parseRest]⟩
      · exact absurd h (by simp [makeErrResult])
    | true =>
      obtain ⟨text, rfl⟩ := List.isPrefixOf_iff_prefix.mp hslashes
      obtain ⟨authority, rest, rfl, hauthority, hrest⟩ := exists_authority text
      obtain ⟨userInfo, heq⟩ := parseAuthority_eq authority
      have hinput : scheme ++ behind 58 (some (ascii "//" ++ (authority ++ rest))) =
          scheme ++ ascii "://" ++ authority ++ rest := by simp [ascii]
      have htext : InAuthority (behindUserInfo authority) :=
        fun b hb => hauthority b (mem_of_mem_behindUserInfo hb)
      rw [hinput, parse_absolute hscheme hauthority hrest, heq] at h
      split at h
      case isFalse => exact absurd h (by simp [makeErrResult])
      case isTrue =>
        cases hok : parseHostPort (behindUserInfo authority)
            { scheme := toLowerAsciiStr scheme, userInfo := userInfo.getD [] } with
        | error e =>
          rw [hok] at h
          exact absurd h (by simp [Except.map])
        | ok url' =>
          -- the rest of the text changes neither
          have hparsed := parsedHost_of_parseHostPort htext hok
          rw [hok] at h
          rw [← Except.ok.inj h]
          exact ⟨hparsed.lower, hparsed.host, hparsed.port⟩

/-! ## Reading the authority back -/

/-- The text, as the authority of a URL with this scheme, stands for this host and this port. -/
def ReadsBack (url : Url) (authority : List UInt8) : Prop :=
  ∃ url', parse (url.scheme ++ ascii "://" ++ authority) = .ok url' ∧ url'.host = url.host ∧
    url'.portOrDefault = url.portOrDefault

/-- The port of a URL that has none. -/
def schemePort (scheme : List UInt8) : Int := ({ scheme := scheme } : Url).portOrDefault

section

variable {url : Url} {authority : List UInt8}
  (hscheme : url.scheme = ascii "http" ∨ url.scheme = ascii "https")
  (hauthority : InAuthority authority)

include hscheme hauthority

/-- `parse` reads host and port behind the user info. -/
private theorem parse_authority :
    ∃ userInfo, parse (url.scheme ++ ascii "://" ++ authority) =
      (parseHostPort (behindUserInfo authority)
        { scheme := url.scheme, userInfo := userInfo }).map (parseRest []) := by
  have hvalid : 58 ∉ url.scheme ∧ toLowerAsciiStr url.scheme = url.scheme ∧
      validScheme url.scheme = true := by
    rcases hscheme with h | h <;> (rw [h]; decide)
  obtain ⟨userInfo, heq⟩ := parseAuthority_eq authority
  have hrest : BehindAuthority [] := by decide
  have habsolute := parse_absolute hvalid.1 hauthority hrest
  rw [List.append_nil, hvalid.2.1, if_pos hvalid.2.2, heq] at habsolute
  exact ⟨userInfo.getD [], habsolute⟩

private theorem readsBack_of_port {host port : List UInt8}
    (hport : PortPart (behindUserInfo authority) host port) :
    ReadsBack url authority ↔ ∃ v, fromChars? port = some v ∧
      unbracket (toLowerAsciiStr host) = url.host ∧
      (if v ≠ -1 then v else schemePort url.scheme) = url.portOrDefault := by
  obtain ⟨userInfo, hparse⟩ := parse_authority hscheme hauthority
  rw [ReadsBack, hparse, parseHostPort_of_port hport]
  cases hnum : fromChars? port with
  | none => simp [makeErrResult, Except.map]
  | some v => simp [Except.map, parseRest, schemePort, portOrDefault]

private theorem readsBack_of_no_port
    (hport : ∀ host port, ¬PortPart (behindUserInfo authority) host port) :
    ReadsBack url authority ↔ unbracket (toLowerAsciiStr (behindUserInfo authority)) = url.host ∧
      schemePort url.scheme = url.portOrDefault := by
  obtain ⟨userInfo, hparse⟩ := parse_authority hscheme hauthority
  rw [ReadsBack, hparse, parseHostPort_of_no_port hport]
  simp [Except.map, parseRest, schemePort, portOrDefault]

end

/-- The host is read without what looks like user info, and without a second pair of brackets. -/
private theorem unbracket_eq_iff {host : List UInt8} (hlower : toLowerAsciiStr host = host) :
    unbracket (toLowerAsciiStr (behindUserInfo host)) = host ↔ 64 ∉ host ∧
      unbracket host = host := by
  by_cases hat : 64 ∈ host
  · have hlt := length_behindUserInfo_lt hat
    simp only [hat, not_true_eq_false, false_and, iff_false]
    intro heq
    have hle := length_unbracket_le (toLowerAsciiStr (behindUserInfo host))
    rw [heq, toLowerAsciiStr, List.length_map] at hle
    omega
  · rw [behindUserInfo_of_not_mem hat, hlower]
    simp [hat]

section

variable {url : Url} (hscheme : url.scheme = ascii "http" ∨ url.scheme = ascii "https")
  (hparsed : ParsedHost url)

include hscheme hparsed

/-- A host with a port behind it is read back. -/
theorem readsBack_port_iff {v : Int} (hrange : -2 ^ 31 ≤ v ∧ v < 2 ^ 31) (hv : v ≠ -1) :
    ReadsBack url (url.host ++ ascii ":" ++ formatInt v) ↔
      (64 ∉ url.host ∧ unbracket url.host = url.host) ∧ v = url.portOrDefault := by
  have hends : ∀ d ∈ ascii "/?#", d ∈ delimiters ∧ d ≠ 58 := by simp [delimiters, ascii]
  have hauthority : InAuthority (url.host ++ ascii ":" ++ formatInt v) := by
    intro b hb hend
    rw [List.append_assoc, List.mem_append] at hb
    rcases hb with hhost | hport
    · exact hparsed.host b hhost hend
    · rcases List.mem_cons.mp hport with rfl | hmem
      · exact (hends 58 hend).2 rfl
      · exact not_mem_formatInt (hends b hend).1 v hmem
  -- the colon in front of the port is the last one, whatever the host holds
  have hport : PortPart (behindUserInfo (url.host ++ ascii ":" ++ formatInt v))
      (behindUserInfo url.host) (formatInt v) := by
    have hnot : 64 ∉ ascii ":" ++ formatInt v := by
      rw [List.mem_append, not_or]
      exact ⟨by decide, not_mem_formatInt (by decide) v⟩
    rw [List.append_assoc, behindUserInfo_append hnot]
    exact ⟨rfl, not_mem_formatInt (by decide) v, not_mem_formatInt (by decide) v⟩
  rw [readsBack_of_port hscheme hauthority hport, fromChars?_formatInt hrange.1 hrange.2,
    unbracket_eq_iff hparsed.lower]
  constructor
  · rintro ⟨w, hw, hhost, heq⟩
    obtain rfl := Option.some.inj hw
    rw [if_pos hv] at heq
    exact ⟨hhost, heq⟩
  · rintro ⟨hhost, heq⟩
    refine ⟨v, rfl, hhost, ?_⟩
    rw [if_pos hv]
    exact heq

/-- A host alone is read back if nothing in it looks like a port. -/
theorem readsBack_host_iff :
    ReadsBack url url.host ↔ (64 ∉ url.host ∧ unbracket url.host = url.host) ∧
      (∀ host port, ¬PortPart url.host host port) ∧ schemePort url.scheme = url.portOrDefault := by
  by_cases hport : ∃ host port, PortPart (behindUserInfo url.host) host port
  · obtain ⟨host, port, hport⟩ := hport
    rw [readsBack_of_port hscheme hparsed.host hport]
    constructor
    · rintro ⟨v, -, hhost, -⟩
      -- what is in front of the colon is shorter than the host
      have hle := length_unbracket_le (toLowerAsciiStr host)
      have hle' := length_behindUserInfo_le url.host
      rw [hhost, toLowerAsciiStr, List.length_map] at hle
      rw [hport.1, List.length_append, List.length_cons] at hle'
      omega
    · rintro ⟨⟨hat, -⟩, hnone, -⟩
      rw [behindUserInfo_of_not_mem hat] at hport
      exact absurd hport (hnone host port)
  · push Not at hport
    rw [readsBack_of_no_port hscheme hparsed.host hport, unbracket_eq_iff hparsed.lower]
    constructor
    · rintro ⟨hhost, heq⟩
      rw [behindUserInfo_of_not_mem hhost.1] at hport
      exact ⟨hhost, hport, heq⟩
    · rintro ⟨hhost, -, heq⟩
      exact ⟨hhost, heq⟩

end

/-! ## The authority of a request -/

/-- `Host` stands for the host and the port of the URL, and so does the target of a CONNECT, which
    has a port, and brackets around an address with colons. -/
structure AuthoritySent (r : OutgoingRequest) : Prop where
  host : ∃ value, h1Host r = some value ∧ ReadsBack r.url value
  target : r.method = ascii "CONNECT" → ReadsBack r.url r.requestTarget ∧
    (∃ host port, PortPart r.requestTarget host port) ∧
    (58 ∈ r.url.host → r.requestTarget =
      ascii "[" ++ r.url.host ++ ascii "]:" ++ formatInt r.url.portOrDefault)

/-- What is needed of the URL. -/
def AuthorityKept (r : OutgoingRequest) : Prop :=
  (64 ∉ r.url.host ∧ unbracket r.url.host = r.url.host) ∧
    if r.method = ascii "CONNECT" then 58 ∉ r.url.host ∧ r.url.portOrDefault ≠ 0
    else
      r.url.portOrDefault ∉ [0, 80, 443] ∨
        (∀ host port, ¬PortPart r.url.host host port) ∧ schemePort r.url.scheme =
        r.url.portOrDefault

/-- A port that is written is an `int`, and not the value for no port. -/
private theorem portOrDefault_range {url : Url} (hparsed : ParsedHost url) :
    (-2 ^ 31 ≤ url.portOrDefault ∧ url.portOrDefault < 2 ^ 31) ∧ url.portOrDefault ≠ -1 := by
  have hrange := hparsed.port
  unfold portOrDefault
  split
  · exact ⟨hrange, ‹_›⟩
  · split
    · decide
    · split <;> decide

private theorem requestTarget_connect {r : OutgoingRequest} (h : r.method = ascii "CONNECT") :
    ∃ port : Int, r.requestTarget = r.url.host ++ ascii ":" ++ formatInt port ∧
      (r.url.portOrDefault ≠ 0 → port = r.url.portOrDefault) ∧
      (r.url.portOrDefault = 0 → port = 80 ∨ port = 443) := by
  have hconnect : r.isConnect = true := by simp [isConnect, h]
  refine ⟨_, by rw [requestTarget, if_pos hconnect], fun hport => if_neg hport, fun hport => ?_⟩
  rw [if_pos hport]
  split
  · exact .inr rfl
  · exact .inl rfl

/-- The target of a CONNECT is read back unless the port is 0, which is replaced. -/
private theorem readsBack_target_iff {r : OutgoingRequest} (hparsed : ParsedHost r.url)
    (hscheme : r.url.scheme = ascii "http" ∨ r.url.scheme = ascii "https")
    (h : r.method = ascii "CONNECT") :
    ReadsBack r.url r.requestTarget ↔ (64 ∉ r.url.host ∧ unbracket r.url.host = r.url.host) ∧
      r.url.portOrDefault ≠ 0 := by
  obtain ⟨port, htarget, hport, hzero⟩ := requestTarget_connect h
  have hrange := portOrDefault_range hparsed
  rw [htarget]
  by_cases hp : r.url.portOrDefault = 0
  · have hcases := hzero hp
    rw [readsBack_port_iff hscheme hparsed (by omega) (by omega), hp]
    have hne : port ≠ 0 := by omega
    simp [hne]
  · rw [hport hp, readsBack_port_iff hscheme hparsed hrange.1 hrange.2]
    simp [hp]

/-- The target of a CONNECT has a port, and never brackets. -/
private theorem target_iff_connect {r : OutgoingRequest} (h : r.method = ascii "CONNECT")
    (hport : r.url.portOrDefault ≠ 0) :
    ((∃ host port, PortPart r.requestTarget host port) ∧
      (58 ∈ r.url.host → r.requestTarget =
        ascii "[" ++ r.url.host ++ ascii "]:" ++ formatInt r.url.portOrDefault)) ↔
      58 ∉ r.url.host := by
  obtain ⟨port, htarget, hkept, -⟩ := requestTarget_connect h
  rw [htarget, hkept hport]
  have hpart : PortPart (r.url.host ++ ascii ":" ++ formatInt r.url.portOrDefault) r.url.host
      (formatInt r.url.portOrDefault) := by
    refine ⟨by simp [ascii], ?_, ?_⟩ <;> exact not_mem_formatInt (by decide) _
  constructor
  · rintro ⟨-, hbrackets⟩ hcolon
    have hlength := congrArg List.length (hbrackets hcolon)
    simp only [List.length_append, ascii] at hlength
    simp at hlength
    omega
  · intro hcolon
    exact ⟨⟨_, _, hpart⟩, fun hmem => absurd hmem hcolon⟩

/-- The authority that is sent, and when it is the URL's.  Always needed is that the host holds no
    `@` and no brackets of its own.  A CONNECT also needs a host without colons and a port other
    than 0. `Host` otherwise needs a port that is not 0, 80 or 443, or else the port of the scheme
    and a host in which nothing looks like a port. -/
theorem authority_sent_iff (r : OutgoingRequest) (input : List UInt8)
    (hparse : parse input = .ok r.url)
    (hscheme : r.url.scheme = ascii "http" ∨ r.url.scheme = ascii "https")
    (hhost : ¬HasField r "host") : AuthoritySent r ↔ AuthorityKept r := by
  have hparsed := parsedHost_of_parse hparse
  have hrange := portOrDefault_range hparsed
  have hwritten : h1Host r = some r.defaultHost := by
    rw [h1Host_eq, Classical.not_not.mp fun h => hhost ((hasField_iff_headerGet r "host").mpr h)]
    rfl
  rw [AuthorityKept]
  -- the target of a CONNECT is the authority too
  by_cases hconnect : r.method = ascii "CONNECT"
  · have hdefault : r.defaultHost = r.requestTarget := if_pos (by simp [isConnect, hconnect])
    rw [if_pos hconnect]
    have hback := readsBack_target_iff hparsed hscheme hconnect
    constructor
    · intro h
      obtain ⟨htarget, hparts⟩ := h.target hconnect
      obtain ⟨hkept, hport⟩ := hback.mp htarget
      exact ⟨hkept, (target_iff_connect hconnect hport).mp hparts, hport⟩
    · rintro ⟨hkept, hcolon, hport⟩
      have htarget := hback.mpr ⟨hkept, hport⟩
      exact ⟨⟨_, hwritten, hdefault ▸ htarget⟩,
        fun _ => ⟨htarget, (target_iff_connect hconnect hport).mpr hcolon⟩⟩
  · have hdefault : r.defaultHost =
        if r.url.portOrDefault ∉ ([0, 80, 443] : List Int) then
          r.url.host ++ ascii ":" ++ formatInt r.url.portOrDefault
        else r.url.host := by
      simp [defaultHost, isConnect, hconnect, and_assoc]
    -- without a CONNECT only `Host` carries the authority
    have hiff : AuthoritySent r ↔ ReadsBack r.url r.defaultHost := by
      constructor
      · intro h
        obtain ⟨value, hvalue, hback⟩ := h.host
        rw [hwritten] at hvalue
        exact Option.some.inj hvalue ▸ hback
      · intro h
        exact ⟨⟨_, hwritten, h⟩, fun h => absurd h hconnect⟩
    rw [hiff, hdefault, if_neg hconnect]
    by_cases hport : r.url.portOrDefault ∈ ([0, 80, 443] : List Int)
    · rw [if_neg (not_not.mpr hport), readsBack_host_iff hscheme hparsed]
      simp only [hport, not_true_eq_false, false_or]
    · rw [if_pos hport, readsBack_port_iff hscheme hparsed hrange.1 hrange.2]
      simp only [hport, not_false_eq_true, true_or]

/-- An address with colons and a port that is not left out. -/
def portGet : OutgoingRequest where
  url := { scheme := ascii "http", host := ascii "::1", port := 8080 }

theorem authority_sent_iff_portGet :
    parse (ascii "HTTP://[::1]:8080/") = .ok portGet.url ∧
      h1Host portGet = some (ascii "::1:8080") ∧ AuthoritySent portGet := by
  have hparse : parse (ascii "HTTP://[::1]:8080/") = .ok portGet.url := by decide +kernel
  have hkept : AuthorityKept portGet := by
    refine ⟨by decide, ?_⟩
    rw [if_neg (by decide)]
    exact .inl (by decide)
  exact ⟨hparse, by decide,
    (authority_sent_iff portGet _ hparse (by decide) (by decide)).mpr hkept⟩

/-- A host that is read as another authority. -/
private theorem not_authoritySent {r : OutgoingRequest} {value : List UInt8} (url : Url)
    (hvalue : h1Host r = some value)
    (hparse : parse (r.url.scheme ++ ascii "://" ++ value) = .ok url)
    (hother : url.host ≠ r.url.host ∨ url.portOrDefault ≠ r.url.portOrDefault) :
      ¬AuthoritySent r := by
  intro h
  obtain ⟨value', hvalue', url', hparse', hhost, hport⟩ := h.host
  rw [← Option.some.inj (hvalue.symm.trans hvalue'), hparse] at hparse'
  obtain rfl := Except.ok.inj hparse'
  rcases hother with hne | hne
  · exact hne hhost
  · exact hne hport

/-- The port of the other scheme is left out, the end of an address is read as a port, and the
    address of a CONNECT has no brackets. -/
theorem other_authority_sent :
    let tls : OutgoingRequest :=
  { url := { scheme := ascii "http", host := ascii "a", port := 443 } }
    let loopback : OutgoingRequest := { url := { scheme := ascii "http", host := ascii "::1" } }
    let tunnel : OutgoingRequest := { loopback with method := ascii "CONNECT" }
    parse (ascii "http://a:443/") = .ok tls.url ∧ parse (ascii "http://[::1]/") = .ok loopback.url ∧
      h1Host tls = some (ascii "a") ∧ h1Host loopback = some (ascii "::1") ∧
      tunnel.requestTarget = ascii "::1:80" ∧
      ¬AuthoritySent tls ∧ ¬AuthoritySent loopback ∧ ¬AuthoritySent tunnel := by
  intro tls loopback tunnel
  have htls : ¬AuthoritySent tls :=
    not_authoritySent { scheme := ascii "http", host := ascii "a", path := [] } rfl
      (by decide +kernel) (by decide)
  have hloopback : ¬AuthoritySent loopback :=
    not_authoritySent { scheme := ascii "http", host := ascii ":", port := 1, path := [] } rfl
      (by decide +kernel) (by decide)
  have htunnel : ¬AuthoritySent tunnel := by
    intro h
    obtain ⟨-, -, hbrackets⟩ := h.target rfl
    exact absurd (hbrackets (by decide)) (by decide)
  exact ⟨by decide +kernel, by decide +kernel, by decide, by decide, by decide, htls, hloopback,
    htunnel⟩

end Ppnt.Spec
