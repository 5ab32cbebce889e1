import Ppnt.Native.Err
import Ppnt.Native.Util

/-!
# URLs

Model of `Url::parse`, `Url::resolve` and `Url::href` (`ppnt-io/src/net/url.ixx`,
`ppnt-io/src/net/url.cpp`).
-/

namespace Ppnt.Native

structure Url where
  scheme : List UInt8 := []
  userInfo : List UInt8 := []
  host : List UInt8 := []
  port : Int := -1
  path : List UInt8 := ascii "/"
  query : List UInt8 := []
  fragment : List UInt8 := []
deriving DecidableEq, Repr

namespace Url

def portOrDefault (url : Url) : Int :=
  if url.port ≠ -1 then url.port
  else if url.scheme = ascii "http" then 80
  else if url.scheme = ascii "https" then 443
  else 0

/-- Take the brackets off an IPv6 literal. -/
def unbracket (host : List UInt8) : List UInt8 :=
  if 2 ≤ host.length && host.head? = some 91 && host.getLast? = some 93 then
    host.tail.dropLast
  else host

/-- `parse_authority` behind the user info. -/
def parseHostPort (authority : List UInt8) (url : Url) : Except Error Url :=
  let closeBracket := rfind 93 authority
  let portColon := (rfind 58 authority).filter fun colonPos =>
    closeBracket.all fun bracketPos => bracketPos < colonPos
  match portColon with
  | some colonPos =>
    match fromChars? (authority.drop (colonPos + 1)) with
    | none => makeErrResult .invalidArgument "InvalidPort"
    | some portNum =>
      .ok { url with
        port := portNum
        host := unbracket (toLowerAsciiStr (authority.take colonPos)) }
  | none => .ok { url with port := -1, host := unbracket (toLowerAsciiStr authority) }

def parseAuthority (authority : List UInt8) (url : Url) : Except Error Url :=
  match find 64 authority with
  | some atPos =>
    parseHostPort (authority.drop (atPos + 1)) { url with userInfo := authority.take atPos }
  | none => parseHostPort authority url

/-! ## Dot segments -/

/-- `output` without its last segment. -/
def popSegment (output : List UInt8) : List UInt8 :=
  match rfind 47 output with
  | none => []
  | some lastSlash => output.take lastSlash

/-- The loop of `remove_dot_segments`.  The next slash is looked for behind the first character,
    whether that is a slash or not, so one search stands for the two of the source. -/
def removeDotSegmentsLoop (input output : List UInt8) : List UInt8 :=
  if input = [] then output
  else if (ascii "../").isPrefixOf input then removeDotSegmentsLoop (input.drop 3) output
  else if (ascii "./").isPrefixOf input then removeDotSegmentsLoop (input.drop 2) output
  else if (ascii "/./").isPrefixOf input then removeDotSegmentsLoop (input.drop 2) output
  else if input = ascii "/." then removeDotSegmentsLoop (ascii "/") output
  else if (ascii "/../").isPrefixOf input then
    removeDotSegmentsLoop (input.drop 3) (popSegment output)
  else if input = ascii "/.." then removeDotSegmentsLoop (ascii "/") (popSegment output)
  else if input = ascii "." || input = ascii ".." then output
  else
    match find 47 input.tail with
    | none => output ++ input
    | some i => removeDotSegmentsLoop (input.drop (i + 1)) (output ++ input.take (i + 1))
termination_by input.length
decreasing_by
  all_goals have hpos := List.length_pos_iff.mpr ‹¬input = []›
  case _ => simp only [List.length_drop]; omega
  case _ => simp only [List.length_drop]; omega
  case _ => simp only [List.length_drop]; omega
  case _ => rw [‹input = ascii "/."›]; decide
  case _ => simp only [List.length_drop]; omega
  case _ => rw [‹input = ascii "/.."›]; decide
  case _ => simp only [List.length_drop]; omega

def removeDotSegments (input : List UInt8) : List UInt8 := removeDotSegmentsLoop input []

/-! ## Parsing -/

/-- `parse` behind the authority. -/
def parseRest (rest : List UInt8) (url : Url) : Url :=
  let fragmentPos := find 35 rest
  let queryPos := (find 63 rest).filter fun q => fragmentPos.all fun f => q ≤ f
  let fragment := (fragmentPos.map fun f => rest.drop (f + 1)).getD url.fragment
  let rest := rest.take (fragmentPos.getD rest.length)
  let query := (queryPos.map fun q => rest.drop (q + 1)).getD url.query
  let rest := rest.take (queryPos.getD rest.length)
  { url with fragment := fragment, query := query, path := removeDotSegments rest }

def parse (input : List UInt8) : Except Error Url :=
  if input = [] then makeErrResult .invalidArgument "empty url input"
  else
    match find 58 input with
    | none => makeErrResult .invalidArgument "invalid scheme"
    | some schemeEnd =>
      let scheme := toLowerAsciiStr (input.take schemeEnd)
      let rest := input.drop (schemeEnd + 1)
      -- the scheme is lower case by now
      if !scheme.head?.any fun c => 97 ≤ c && c ≤ 122 then
        makeErrResult .invalidArgument "invalid scheme"
      else if (ascii "//").isPrefixOf rest then
        let rest := rest.drop 2
        let authorityEnd := (findFirstOf (ascii "/?#") rest).getD rest.length
        (parseAuthority (rest.take authorityEnd) { scheme := scheme }).map
          (parseRest (rest.drop authorityEnd))
      else .ok (parseRest rest { scheme := scheme })

/-! ## Resolving a reference -/

/-- What `parse_authority` leaves in `url` when it fails: it has set the user info only. -/
def failedAuthority (authority : List UInt8) (url : Url) : Url :=
  match find 64 authority with
  | some atPos => { url with userInfo := authority.take atPos }
  | none => url

/-- The path of a reference without scheme and authority. -/
def resolvePath (rest : List UInt8) (base : Url) : List UInt8 :=
  if (ascii "/").isPrefixOf rest then removeDotSegments rest
  else if rest ≠ [] then
    if base.path = [] then removeDotSegments (ascii "/" ++ rest)
    else
      let baseDir :=
        match rfind 47 base.path with
        | none => ascii "/"
        | some lastSlash => base.path.take (lastSlash + 1)
      removeDotSegments (baseDir ++ rest)
  else base.path

/-- The test of `resolve` for an absolute reference: a colon with no invalid characters before
    it. -/
def hasScheme (relative : List UInt8) : Bool :=
  (find 58 relative).any fun schemeEnd =>
    findFirstOf (ascii "/?#") (relative.take schemeEnd) = none

/-- The branch of `resolve` for a reference with an authority.  The result of `parse_authority` is
    tested the wrong way round: one that holds no error is asked for its error, which is undefined,
    and `garbage` is what it gives. -/
def resolveAuthority (garbage : Error) (rest : List UInt8) (url : Url) : Except Error Url :=
  let authEnd := findFirstOf (ascii "/?#") rest
  let authView := rest.take (authEnd.getD rest.length)
  match parseAuthority authView url with
  | .ok _ => .error garbage
  | .error _ =>
    .ok { failedAuthority authView url with
      path := (authEnd.map fun i => removeDotSegments (rest.drop i)).getD (ascii "/") }

def resolve (garbage : Error) (relative : List UInt8) (base : Url) : Except Error Url :=
  if relative = [] then .ok base
  else if hasScheme relative then parse relative
  else
    let fragmentPos := find 35 relative
    let fragment := (fragmentPos.map fun f => relative.drop (f + 1)).getD []
    let rest := relative.take (fragmentPos.getD relative.length)
    let queryPos := find 63 rest
    let query := (queryPos.map fun q => rest.drop (q + 1)).getD []
    let rest := rest.take (queryPos.getD rest.length)
    let url := { base with query := query, fragment := fragment }
    if queryPos ≠ none ∧ rest = [] then .ok url
    else if (ascii "//").isPrefixOf rest then resolveAuthority garbage (rest.drop 2) url
    else .ok { url with path := resolvePath rest base }

/-! ## Writing -/

def href (url : Url) : List UInt8 :=
  url.scheme ++ ascii "://" ++ (if url.userInfo ≠ [] then url.userInfo ++ ascii "@" else []) ++
    (if find 58 url.host ≠ none ∧ url.host.head? ≠ some 91 then ascii "[" ++ url.host ++ ascii "]"
      else url.host) ++
    (if url.port ≠ -1 then ascii ":" ++ formatInt url.port else []) ++ url.path ++
    (if url.query ≠ [] then ascii "?" ++ url.query else []) ++
    (if url.fragment ≠ [] then ascii "#" ++ url.fragment else [])

end Url

end Ppnt.Native
