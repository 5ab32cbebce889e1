import Ppnt.Spec.DotSegments

/-!
# The parts of a URL

What `Url::parse` does, in terms of the text: the text is cut at delimiters (`cutFirst`), and each
part goes to one component.
-/

namespace Ppnt.Spec

open Ppnt.Native Url

/-! ## Cutting -/

/-- The text in front of the first `c`, and the text behind it if there is one. -/
def cutFirst (c : UInt8) : List UInt8 → List UInt8 × Option (List UInt8)
  | [] => ([], none)
  | b :: s => if b = c then ([], some s) else (b :: (cutFirst c s).1, (cutFirst c s).2)

/-- The delimiter and the text behind it. -/
def behind (c : UInt8) (text : Option (List UInt8)) : List UInt8 := (text.map (c :: ·)).getD []

@[simp] theorem behind_none (c : UInt8) : behind c none = [] := rfl

@[simp] theorem behind_some (c : UInt8) (text : List UInt8) : behind c (some text) = c :: text :=
  rfl

variable {c : UInt8} {a path host text rest : List UInt8}

theorem cutFirst_append {s : List UInt8} (hs : c ∉ s) (text : Option (List UInt8)) :
    cutFirst c (s ++ behind c text) = (s, text) := by
  induction s with
  | nil => cases text <;> simp [cutFirst]
  | cons b s ih =>
    have hb : b ≠ c := fun h => hs (h ▸ List.mem_cons_self)
    have hrest := ih fun h => hs (List.mem_cons_of_mem b h)
    rw [List.cons_append, cutFirst, if_neg hb, hrest]

/-- Every text is cut. -/
theorem exists_cut (c : UInt8) (s : List UInt8) :
    ∃ a text, s = a ++ behind c text ∧ c ∉ a := by
  cases hfind : find c s with
  | none => exact ⟨s, none, by simp, find_eq_none_iff.mp hfind⟩
  | some i =>
    obtain ⟨a, b, rfl, ha, -⟩ := eq_append_of_find hfind
    exact ⟨a, some b, rfl, ha⟩

theorem find_behind (ha : c ∉ a) (text : Option (List UInt8)) :
    find c (a ++ behind c text) = text.map fun _ => a.length := by
  cases text with
  | none =>
    rw [behind_none, List.append_nil]
    exact find_eq_none_iff.mpr ha
  | some text => exact find_append_cons ha text

/-- The text up to the cut and behind it, by position. -/
theorem take_behind (ha : c ∉ a) (text : Option (List UInt8)) :
    (a ++ behind c text).take ((find c (a ++ behind c text)).getD (a ++ behind c text).length) =
      a := by
  rw [find_behind ha]
  cases text <;> simp

theorem drop_behind (ha : c ∉ a) (text : Option (List UInt8)) :
    ((find c (a ++ behind c text)).map fun i => (a ++ behind c text).drop (i + 1)) = text := by
  rw [find_behind ha]
  cases text <;> simp

/-! ## Path, query and fragment -/

/-- A question mark in the fragment does not start a query. -/
private theorem lt_of_find {fragment : List UInt8} {i : Nat} (hpath : 63 ∉ path)
    (h : find 63 (path ++ 35 :: fragment) = some i) : path.length < i := by
  obtain ⟨a, b, heq, -, rfl⟩ := eq_append_of_find h
  by_contra hle
  have hget : (path ++ 35 :: fragment)[a.length]? = some 63 := by
    rw [heq]
    simp
  rcases Nat.lt_or_eq_of_le (Nat.le_of_not_lt hle) with hlt | hlength
  · rw [List.getElem?_append_left hlt] at hget
    exact hpath (List.mem_of_getElem? hget)
  · rw [hlength] at hget
    simp at hget

/-- What `parse` does with the text behind the authority. -/
theorem parseRest_append {query fragment : Option (List UInt8)} (hpath : 63 ∉ path ∧ 35 ∉ path)
    (hquery : ∀ q ∈ query, 35 ∉ q) (url : Url) :
    parseRest (path ++ behind 63 query ++ behind 35 fragment) url =
      { url with
        fragment := fragment.getD url.fragment
        query := query.getD url.query
        path := removeDotSegments path } := by
  have hfront : 35 ∉ path ++ behind 63 query := by
    cases query with
    | none => simpa using hpath.2
    | some q => simpa using ⟨hpath.2, hquery q rfl⟩
  -- the query starts at the first question mark, unless that is behind the fragment
  have hqueryPos : ((find 63 (path ++ behind 63 query ++ behind 35 fragment)).filter fun q =>
      (find 35 (path ++ behind 63 query ++ behind 35 fragment)).all fun f => q ≤ f) =
      find 63 (path ++ behind 63 query) := by
    rw [find_behind hfront]
    cases query with
    | some q =>
      rw [find_behind hpath.1, behind_some, List.append_assoc, List.cons_append,
        find_append_cons hpath.1]
      cases fragment <;> simp
    | none =>
      rw [find_behind hpath.1]
      cases fragment with
      | none => simp [find_eq_none_iff.mpr hpath.1]
      | some f =>
        rw [Option.map_none, Option.filter_eq_none_iff]
        intro i hi
        have hlt := lt_of_find hpath.1 (by simpa using hi)
        simp only [behind_none, List.append_nil, Option.map_some, Option.all_some,
          decide_eq_true_eq, not_le]
        exact hlt
  simp only [parseRest, hqueryPos, take_behind hfront, drop_behind hfront, take_behind hpath.1,
    drop_behind hpath.1]

/-- Every text is a path, a query and a fragment. -/
theorem exists_pathQueryFragment (text : List UInt8) :
    ∃ path query fragment, text = path ++ behind 63 query ++ behind 35 fragment ∧
      (63 ∉ path ∧ 35 ∉ path) ∧ ∀ q ∈ query, 35 ∉ q := by
  obtain ⟨front, fragment, rfl, hfront⟩ := exists_cut 35 text
  obtain ⟨path, query, rfl, hpath⟩ := exists_cut 63 front
  rw [List.mem_append, not_or] at hfront
  refine ⟨path, query, fragment, rfl, ⟨hpath, hfront.1⟩, ?_⟩
  rintro q rfl hmem
  exact hfront.2 (List.mem_cons_of_mem 63 hmem)

/-! ## Lower case -/

private theorem toLowerAscii_toLowerAscii (b : UInt8) :
    toLowerAscii (toLowerAscii b) = toLowerAscii b := by
  unfold toLowerAscii
  split
  case isTrue hupper =>
    have hlower : ¬((65 ≤ b + 32 && b + 32 ≤ 90) = true) := by
      simp only [Bool.and_eq_true, decide_eq_true_eq, UInt8.le_iff_toNat_le, UInt8.toNat_add,
        UInt8.reduceToNat] at *
      omega
    rw [if_neg hlower]
  case isFalse => rfl

theorem toLowerAsciiStr_idem (s : List UInt8) :
    toLowerAsciiStr (toLowerAsciiStr s) = toLowerAsciiStr s := by
  rw [toLowerAsciiStr, toLowerAsciiStr, List.map_map]
  exact List.map_congr_left fun b _ => toLowerAscii_toLowerAscii b

/-- The delimiters of a URL. -/
def delimiters : List UInt8 := ascii ":/?#[]@"

/-- Delimiters have no case. -/
theorem mem_toLowerAsciiStr {d : UInt8} (hd : d ∈ delimiters) {s : List UInt8} :
    d ∈ toLowerAsciiStr s ↔ d ∈ s := by
  have hself : ∀ d ∈ delimiters, toLowerAscii d = d := by simp [delimiters, ascii, toLowerAscii]
  have hbelow : ∀ d ∈ delimiters, ¬(97 ≤ d.toNat ∧ d.toNat ≤ 122) := by simp [delimiters, ascii]
  rw [toLowerAsciiStr, List.mem_map]
  constructor
  · rintro ⟨b, hb, rfl⟩
    by_cases hupper : (65 ≤ b && b ≤ 90) = true
    · -- the lower case of a letter is a letter
      have hletter := hbelow _ hd
      rw [toLowerAscii, if_pos hupper] at hletter
      simp only [Bool.and_eq_true, decide_eq_true_eq, UInt8.le_iff_toNat_le, UInt8.toNat_add,
        UInt8.reduceToNat] at *
      omega
    · rwa [toLowerAscii, if_neg hupper]
  · intro hmem
    exact ⟨d, hmem, hself d hd⟩

/-! ## Host and port -/

/-- A port holds no delimiters. -/
theorem not_mem_formatInt {b : UInt8} (hb : b ∈ delimiters) (v : Int) :
    b ∉ formatInt v := by
  have hother : ∀ d ∈ delimiters, d ≠ 45 ∧ isDigit d = false := by simp [delimiters, ascii, isDigit]
  intro hmem
  rcases mem_formatInt hmem with heq | hdigit
  · exact (hother b hb).1 heq
  · rw [(hother b hb).2] at hdigit
    exact Bool.noConfusion hdigit

/-- `host`, `[host]`, `host:port` or `[host]:port`. -/
def hostPort (bracketed : Bool) (host : List UInt8) (port : Option (List UInt8)) : List UInt8 :=
  (if bracketed then 91 :: (host ++ [93]) else host) ++ behind 58 port

/-- The host loses its brackets and its upper case. -/
private theorem unbracket_shell (bracketed : Bool) (hhost : 91 ∉ host) :
    unbracket (toLowerAsciiStr (if bracketed then 91 :: (host ++ [93]) else host)) =
      toLowerAsciiStr host := by
  cases bracketed with
  | true =>
    have hlower : toLowerAsciiStr (91 :: (host ++ [93])) =
      91 :: (toLowerAsciiStr host ++ [93]) := by
      simp [toLowerAsciiStr, toLowerAscii]
    have hlast : (91 :: (toLowerAsciiStr host ++ [93])).getLast? = some 93 := by
      rw [← List.cons_append, List.getLast?_concat]
    rw [if_pos rfl, hlower, unbracket, if_pos (by simp [hlast])]
    simp
  | false =>
    have hhead : (toLowerAsciiStr host).head? ≠ some 91 := by
      intro h
      exact hhost ((mem_toLowerAsciiStr (by decide)).mp (List.mem_of_head? h))
    simp [unbracket, hhead]

/-- `port` stands behind the last colon of `text`, and no bracket closes behind that colon. -/
def PortPart (text host port : List UInt8) : Prop :=
  text = host ++ 58 :: port ∧ 58 ∉ port ∧ 93 ∉ port

instance (text host port : List UInt8) : Decidable (PortPart text host port) :=
  inferInstanceAs (Decidable (_ ∧ _ ∧ _))

/-- The last bracket is in front of the colon if none closes behind it. -/
private theorem all_rfind_lt_iff (host port : List UInt8) :
    ((rfind 93 (host ++ 58 :: port)).all fun bracketPos => bracketPos < host.length) = true ↔
      93 ∉ port := by
  cases hfind : rfind 93 (host ++ 58 :: port) with
  | none =>
    have hnone := rfind_eq_none_iff.mp hfind
    simp only [Option.all_none, true_iff]
    exact fun hmem => hnone (List.mem_append_right host (List.mem_cons_of_mem 58 hmem))
  | some i =>
    obtain ⟨a, b, heq, hb, rfl⟩ := eq_append_of_rfind hfind
    simp only [Option.all_some, decide_eq_true_eq]
    constructor
    · intro hlt hmem
      -- the port is at the end of what is behind that bracket
      have hdrop : port = b.drop (host.length - a.length) := by
        have hport := congrArg (List.drop (host.length + 1)) heq
        rw [show host.length + 1 = a.length + (host.length + 1 - a.length) by omega,
          List.drop_length_add_append] at hport
        rw [show host.length + 1 - a.length = (host.length - a.length) + 1 by omega,
          List.drop_succ_cons] at hport
        rw [← hport, show a.length + (host.length - a.length + 1) = host.length + 1 by omega,
          List.drop_length_add_append]
        rfl
      exact hb (List.mem_of_mem_drop (hdrop ▸ hmem))
    · intro hnot
      by_contra hle
      have hget : (host ++ 58 :: port)[a.length]? = some 93 := by
        rw [heq]
        simp
      rw [List.getElem?_append_right (Nat.le_of_not_lt hle)] at hget
      have hmem : 93 ∈ 58 :: port := List.mem_of_getElem? hget
      exact hnot (by simpa using hmem)

/-- The colon in front of the port is the last one, and behind the closing bracket. -/
private theorem portColon_eq_some_iff {i : Nat} :
    ((rfind 58 text).filter fun colonPos =>
        (rfind 93 text).all fun bracketPos => bracketPos < colonPos) = some i ↔
      ∃ host port, PortPart text host port ∧ host.length = i := by
  rw [Option.filter_eq_some_iff]
  constructor
  · rintro ⟨hcolon, hbracket⟩
    obtain ⟨host, port, rfl, hport, rfl⟩ := eq_append_of_rfind hcolon
    exact ⟨host, port, ⟨rfl, hport, (all_rfind_lt_iff host port).mp hbracket⟩, rfl⟩
  · rintro ⟨host, port, ⟨rfl, hport, hbracket⟩, rfl⟩
    exact ⟨rfind_append_cons host hport, (all_rfind_lt_iff host port).mpr hbracket⟩

/-- What `parse_authority` does with a host and a port. -/
theorem parseHostPort_of_port {port : List UInt8} (h : PortPart text host port) (url : Url) :
    parseHostPort text url =
      match fromChars? port with
      | none => makeErrResult .invalidArgument "InvalidPort"
      | some portNum =>
        .ok { url with port := portNum, host := unbracket (toLowerAsciiStr host) } := by
  rw [parseHostPort, portColon_eq_some_iff.mpr ⟨host, port, h, rfl⟩, h.1]
  cases hnum : fromChars? port <;>
    simp only [List.drop_length_add_append, List.drop_one, List.tail_cons, List.take_left, hnum]

/-- What `parse_authority` does with a host alone. -/
theorem parseHostPort_of_no_port (h : ∀ host port, ¬PortPart text host port) (url : Url) :
    parseHostPort text url =
      .ok { url with port := -1, host := unbracket (toLowerAsciiStr text) } := by
  have hnone : ((rfind 58 text).filter fun colonPos =>
      (rfind 93 text).all fun bracketPos => bracketPos < colonPos) = none := by
    rw [Option.eq_none_iff_forall_not_mem]
    intro i hi
    obtain ⟨host, port, hport, -⟩ := portColon_eq_some_iff.mp hi
    exact h host port hport
  rw [parseHostPort, hnone]

/-- A bracket at the end is behind every colon. -/
private theorem not_portPart_hostPort {bracketed : Bool} (hcolon : bracketed = true ∨ 58 ∉ host)
    (front port : List UInt8) :
    ¬PortPart (hostPort bracketed host none) front port := by
  rintro ⟨heq, -, hbracket⟩
  cases bracketed with
  | false =>
    have hnot : 58 ∉ host := by simpa using hcolon
    exact hnot (by simp [show host = front ++ 58 :: port by simpa [hostPort] using heq])
  | true =>
    have hlast := congrArg List.getLast? heq
    rw [show hostPort true host none = (91 :: host) ++ [93] by simp [hostPort],
      List.getLast?_concat, List.getLast?_append, List.getLast?_cons, Option.some_or] at hlast
    have hmem : 93 ∈ 58 :: port :=
      List.mem_of_getLast? (List.getLast?_cons.trans hlast.symm)
    exact hbracket (by simpa using hmem)

/-- What `parse_authority` does behind the user info. -/
theorem parseHostPort_hostPort {bracketed : Bool} {port : Option (List UInt8)}
    (hhost : 91 ∉ host ∧ 93 ∉ host) (hport : ∀ p ∈ port, 58 ∉ p ∧ 93 ∉ p)
    (hcolon : bracketed = true ∨ port ≠ none ∨ 58 ∉ host) (url : Url) :
    parseHostPort (hostPort bracketed host port) url =
      match port with
      | none => .ok { url with port := -1, host := toLowerAsciiStr host }
      | some p =>
        match fromChars? p with
        | none => makeErrResult .invalidArgument "InvalidPort"
        | some portNum => .ok { url with port := portNum, host := toLowerAsciiStr host } := by
  cases port with
  | none =>
    rw [parseHostPort_of_no_port (not_portPart_hostPort (by simpa using hcolon))]
    simp only [hostPort, behind_none, List.append_nil, unbracket_shell _ hhost.1]
  | some p =>
    have hpart : PortPart (hostPort bracketed host (some p))
        (if bracketed then 91 :: (host ++ [93]) else host) p := ⟨rfl, hport p rfl⟩
    rw [parseHostPort_of_port hpart, unbracket_shell _ hhost.1]

/-! ## The whole URL -/

/-- `host` or `user@host`. -/
def withUserInfo (userInfo : Option (List UInt8)) (host : List UInt8) : List UInt8 :=
  (userInfo.map (· ++ [64])).getD [] ++ host

theorem parseAuthority_withUserInfo {userInfo : Option (List UInt8)}
    (huser : ∀ u ∈ userInfo, 64 ∉ u) (hhost : 64 ∉ host) (url : Url) :
    parseAuthority (withUserInfo userInfo host) url =
      parseHostPort host { url with userInfo := userInfo.getD url.userInfo } := by
  cases userInfo with
  | none =>
    have hfind : find 64 (withUserInfo none host) = none := find_eq_none_iff.mpr hhost
    rw [parseAuthority, hfind]
    rfl
  | some u =>
    have htext : withUserInfo (some u) host = u ++ 64 :: host := by simp [withUserInfo]
    rw [parseAuthority, htext, find_append_cons (huser u rfl)]
    simp

/-- The authority without its user info. -/
def behindUserInfo (authority : List UInt8) : List UInt8 := (cutFirst 64 authority).2.getD authority

/-- The user info ends at the first `@`, and what is behind it is a host and a port. -/
theorem parseAuthority_eq (authority : List UInt8) :
    ∃ userInfo : Option (List UInt8), ∀ url, parseAuthority authority url =
      parseHostPort (behindUserInfo authority)
      { url with userInfo := userInfo.getD url.userInfo } := by
  obtain ⟨a, text, rfl, ha⟩ := exists_cut 64 authority
  rw [behindUserInfo, cutFirst_append ha]
  refine ⟨text.map fun _ => a, fun url => ?_⟩
  rw [parseAuthority, find_behind ha]
  cases text <;> simp

/-- `parse_authority` sets host and port, and the user info if there is one.  Whether it fails does
    not depend on the URL. -/
theorem parseAuthority_cases (authority : List UInt8) :
    (∃ e, ∀ url, parseAuthority authority url = .error e) ∨
      ∃ (userInfo : Option (List UInt8)) (host : List UInt8) (port : Int),
        ∀ url : Url, parseAuthority authority url =
          .ok { url with userInfo := userInfo.getD url.userInfo, host := host, port := port } := by
  have hhostPort : ∀ text, (∃ e, ∀ url, parseHostPort text url = .error e) ∨
      ∃ host port, ∀ url : Url, parseHostPort text url =
        .ok { url with host := host, port := port } := by
    intro text
    unfold parseHostPort
    dsimp only
    split
    · split
      · exact .inl ⟨_, fun _ => rfl⟩
      · exact .inr ⟨_, _, fun _ => rfl⟩
    · exact .inr ⟨_, _, fun _ => rfl⟩
  obtain ⟨userInfo, heq⟩ := parseAuthority_eq authority
  rcases hhostPort (behindUserInfo authority) with ⟨e, he⟩ | ⟨host, port, hok⟩
  · exact .inl ⟨e, fun url => (heq url).trans (he _)⟩
  · exact .inr ⟨userInfo, host, port, fun url => (heq url).trans (hok _)⟩

/-- No character ends the authority. -/
def InAuthority (s : List UInt8) : Prop := ∀ b ∈ s, b ∉ ascii "/?#"

instance : DecidablePred InAuthority := fun s => List.decidableBAll (· ∉ ascii "/?#") s

/-- The text behind an authority: nothing, or one of the characters that end it in front. -/
def BehindAuthority (s : List UInt8) : Prop := ∀ b ∈ s.head?, b ∈ ascii "/?#"

instance : DecidablePred BehindAuthority
  | [] => .isTrue fun _ hb => absurd hb (by simp)
  | b :: _ => decidable_of_iff (b ∈ ascii "/?#") (by simp [BehindAuthority])

theorem findFirstOf_authority {authority : List UInt8} (hauthority : InAuthority authority)
    (hrest : BehindAuthority rest) :
    (findFirstOf (ascii "/?#") (authority ++ rest)).getD (authority ++ rest).length =
      authority.length := by
  have hnone : authority.findIdx? (· ∈ ascii "/?#") = none := by
    simp only [List.findIdx?_eq_none_iff, decide_eq_false_iff_not]
    exact hauthority
  rw [findFirstOf, List.findIdx?_append, hnone, Option.none_or]
  cases rest with
  | nil => simp
  | cons b rest =>
    have hb : b ∈ ascii "/?#" := hrest b rfl
    simp [List.findIdx?_cons, hb]

/-- The path behind an authority. -/
theorem absPath_of_behindAuthority (hpath : 63 ∉ path ∧ 35 ∉ path)
    (h : BehindAuthority (path ++ rest)) : AbsPath path := by
  cases path with
  | nil => exact .inl rfl
  | cons b path =>
    have hb : b ∈ ascii "/?#" := h b rfl
    have hcases : b = 47 ∨ b = 63 ∨ b = 35 := by simpa [ascii] using hb
    rcases hcases with rfl | rfl | rfl
    · exact .inr rfl
    · exact absurd List.mem_cons_self hpath.1
    · exact absurd List.mem_cons_self hpath.2

theorem behindAuthority_append (h : AbsPath path) (query fragment : Option (List UInt8)) :
    BehindAuthority (path ++ behind 63 query ++ behind 35 fragment) := by
  have hends : 47 ∈ ascii "/?#" ∧ 63 ∈ ascii "/?#" ∧ 35 ∈ ascii "/?#" := by decide
  intro b hb
  rcases h with rfl | hpath
  · cases query with
    | some q => exact Option.some.inj hb ▸ hends.2.1
    | none =>
      cases fragment with
      | some f => exact Option.some.inj hb ▸ hends.2.2
      | none => exact absurd hb (by simp)
  · obtain ⟨text, rfl⟩ := List.head?_eq_some_iff.mp hpath
    exact Option.some.inj hb ▸ hends.1

/-- A letter in front, in lower case. -/
def validScheme (scheme : List UInt8) : Bool := scheme.head?.any fun c => 97 ≤ c && c ≤ 122

/-- `parse` without an authority. -/
theorem parse_noAuthority {scheme : List UInt8} (hscheme : 58 ∉ scheme)
    (hrest : (ascii "//").isPrefixOf rest = false) :
    parse (scheme ++ 58 :: rest) =
      if validScheme (toLowerAsciiStr scheme) then
        .ok (parseRest rest { scheme := toLowerAsciiStr scheme })
      else makeErrResult .invalidArgument "invalid scheme" := by
  rw [parse, if_neg (by simp), find_append_cons hscheme]
  simp only [List.take_left, List.drop_length_add_append, List.drop_one, List.tail_cons, hrest,
    Bool.false_eq_true, if_false, validScheme]
  by_cases hvalid : ((toLowerAsciiStr scheme).head?.any fun c => 97 ≤ c && c ≤ 122) = true
  · simp [hvalid]
  · simp [hvalid]

/-- The whole URL. -/
theorem parse_absolute {scheme authority : List UInt8} (hscheme : 58 ∉ scheme)
    (hauthority : InAuthority authority) (hrest : BehindAuthority rest) :
    parse (scheme ++ ascii "://" ++ authority ++ rest) =
      if validScheme (toLowerAsciiStr scheme) then
        (parseAuthority authority { scheme := toLowerAsciiStr scheme }).map (parseRest rest)
      else makeErrResult .invalidArgument "invalid scheme" := by
  have htext : scheme ++ ascii "://" ++ authority ++ rest =
      scheme ++ 58 :: (ascii "//" ++ (authority ++ rest)) := by
    simp [ascii]
  have hslashes : (ascii "//").isPrefixOf (ascii "//" ++ (authority ++ rest)) = true := by
    simp [List.isPrefixOf_iff_prefix]
  have hdrop : (ascii "//" ++ (authority ++ rest)).drop 2 = authority ++ rest := rfl
  rw [htext, parse, if_neg (by simp), find_append_cons hscheme]
  simp only [List.take_left, List.drop_length_add_append, List.drop_one, List.tail_cons, hslashes,
    if_true, hdrop, findFirstOf_authority hauthority hrest, List.drop_left, validScheme]
  by_cases hvalid : ((toLowerAsciiStr scheme).head?.any fun c => 97 ≤ c && c ≤ 122) = true
  · simp [hvalid]
  · simp [hvalid]

end Ppnt.Spec
