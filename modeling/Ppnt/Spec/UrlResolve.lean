import Mathlib.Data.List.DropRight
import Ppnt.Spec.UrlSyntax

/-!
# Resolving a reference

A reference is split as RFC 3986 (appendix B) does it, and `transform` is its section 5.2.2, with
the lower case, the dot segments and the authorities of `Url::parse`.  The text in front of a colon
in the first segment is a scheme, if not a valid one; it has at least one character, so a reference
that starts with the colon is a path.
-/

namespace Ppnt.Spec

open Ppnt.Native Url

/-! ## References -/

/-- The parts of a reference.  A part that may be missing is not the same as an empty one. -/
structure Reference where
  scheme : Option (List UInt8)
  authority : Option (List UInt8)
  path : List UInt8
  query : Option (List UInt8)
  fragment : Option (List UInt8)
deriving DecidableEq

/-- The scheme, `([^:/?#]+):` in the regular expression of the appendix. -/
def splitScheme (text : List UInt8) : Option (List UInt8) × List UInt8 :=
  match cutFirst 58 text with
  | (front, some rest) =>
    if front ≠ [] ∧ InAuthority front then (some front, rest) else (none, text)
  | (_, none) => (none, text)

/-- The authority and the path, of a text without query and fragment. -/
def splitAuthority (text : List UInt8) : Option (List UInt8) × List UInt8 :=
  if (ascii "//").isPrefixOf text then
    (some ((text.drop 2).takeWhile (· != 47)), (text.drop 2).dropWhile (· != 47))
  else (none, text)

/-- The parts behind the scheme. -/
def splitHier (scheme : Option (List UInt8)) (text : List UInt8) : Reference :=
  let (text, fragment) := cutFirst 35 text
  let (text, query) := cutFirst 63 text
  let (authority, path) := splitAuthority text
  ⟨scheme, authority, path, query, fragment⟩

def splitReference (text : List UInt8) : Reference :=
  splitHier (splitScheme text).1 (splitScheme text).2

/-! ## Section 5.2.2 -/

/-- The base path up to its last slash, with the path of the reference behind it. -/
def mergePath (base path : List UInt8) : List UInt8 :=
  if base = [] then 47 :: path else base.rdropWhile (· != 47) ++ path

/-- An authority that may be missing. -/
def parseAuthority? (authority : Option (List UInt8)) (url : Url) : Except Error Url :=
  match authority with
  | none => .ok url
  | some text => parseAuthority text url

def transform (base : Url) (ref : Reference) : Except Error Url :=
  match ref.scheme, ref.authority with
  | some scheme, authority =>
    if validScheme (toLowerAsciiStr scheme) then
      (parseAuthority? authority { scheme := toLowerAsciiStr scheme }).map fun url =>
        { url with
          path := removeDotSegments ref.path
          query := ref.query.getD []
          fragment := ref.fragment.getD [] }
    else makeErrResult .invalidArgument "invalid scheme"
  | none, some authority =>
    (parseAuthority authority { scheme := base.scheme }).map fun url =>
      { url with
        path := removeDotSegments ref.path
        query := ref.query.getD []
        fragment := ref.fragment.getD [] }
  | none, none =>
    .ok { base with
      path :=
        if ref.path = [] then base.path
        else if ref.path.head? = some 47 then removeDotSegments ref.path
        else removeDotSegments (mergePath base.path ref.path)
      query := ref.query.getD (if ref.path = [] then base.query else [])
      fragment := ref.fragment.getD [] }

/-! ## Splitting -/

/-- An authority with the slashes in front of it. -/
def authorityText (authority : Option (List UInt8)) : List UInt8 :=
  (authority.map (ascii "//" ++ ·)).getD []

namespace Reference

/-- The authority and the path. -/
def front (ref : Reference) : List UInt8 := authorityText ref.authority ++ ref.path

/-- The text behind the scheme. -/
def hierText (ref : Reference) : List UInt8 :=
  ref.front ++ behind 63 ref.query ++ behind 35 ref.fragment

private theorem front_of_none {ref : Reference} (h : ref.authority = none) :
    ref.front = ref.path := by
  rw [front, h]
  rfl

private theorem front_of_some {ref : Reference} {a : List UInt8} (h : ref.authority = some a) :
    ref.front = ascii "//" ++ (a ++ ref.path) := by
  simp [front, authorityText, h]

/-- The parts are found again in the text. -/
structure Proper (ref : Reference) : Prop where
  authority : ∀ a ∈ ref.authority, InAuthority a ∧ AbsPath ref.path
  noAuthority : ref.authority = none → (ascii "//").isPrefixOf ref.path = false
  path : 63 ∉ ref.path ∧ 35 ∉ ref.path
  query : ∀ q ∈ ref.query, 35 ∉ q

end Reference

/-- The text in front of the first slash. -/
private theorem exists_slash (text : List UInt8) :
    ∃ a path, text = a ++ path ∧ 47 ∉ a ∧ AbsPath path := by
  obtain ⟨a, rest, rfl, ha⟩ := exists_cut 47 text
  refine ⟨a, behind 47 rest, rfl, ha, ?_⟩
  cases rest with
  | none => exact .inl rfl
  | some rest => exact .inr rfl

/-- Every text has such parts. -/
private theorem exists_hierText (scheme : Option (List UInt8)) (text : List UInt8) :
    ∃ ref : Reference, ref.scheme = scheme ∧ text = ref.hierText ∧ ref.Proper := by
  obtain ⟨front, query, fragment, rfl, hfront, hquery⟩ := exists_pathQueryFragment text
  cases hslashes : (ascii "//").isPrefixOf front with
  | false =>
    exact ⟨⟨scheme, none, front, query, fragment⟩, rfl, rfl, by simp, fun _ => hslashes, hfront,
      hquery⟩
  | true =>
    obtain ⟨rest, rfl⟩ := List.isPrefixOf_iff_prefix.mp hslashes
    obtain ⟨a, path, rfl, ha, hpath⟩ := exists_slash rest
    simp only [List.mem_append, not_or] at hfront
    refine ⟨⟨scheme, some a, path, query, fragment⟩, rfl, ?_, ?_, by simp,
      ⟨hfront.1.2.2, hfront.2.2.2⟩, hquery⟩
    · simp [Reference.hierText, Reference.front, authorityText]
    · intro a' ha'
      obtain rfl := Option.some.inj ha'
      refine ⟨fun b hb hend => ?_, hpath⟩
      have hcases : b = 47 ∨ b = 63 ∨ b = 35 := by simpa [ascii] using hend
      rcases hcases with rfl | rfl | rfl
      · exact ha hb
      · exact hfront.1.2.1 hb
      · exact hfront.2.2.1 hb

namespace Reference

variable {ref : Reference}

private theorem Proper.not_mem_front (h : ref.Proper) : 63 ∉ ref.front ∧ 35 ∉ ref.front := by
  cases hauthority : ref.authority with
  | none =>
    have hfront : ref.front = ref.path := by rw [front, hauthority]; rfl
    rw [hfront]
    exact h.path
  | some a =>
    have ha := (h.authority a hauthority).1
    have hquestion : 63 ∉ a := fun hb => ha 63 hb (by decide)
    have hhash : 35 ∉ a := fun hb => ha 35 hb (by decide)
    simp [front, authorityText, hauthority, ascii, hquestion, hhash, h.path.1, h.path.2]

private theorem Proper.not_mem_query (h : ref.Proper) : 35 ∉ ref.front ++ behind 63 ref.query := by
  rw [List.mem_append, not_or]
  refine ⟨h.not_mem_front.2, ?_⟩
  cases hquery : ref.query with
  | none => simp
  | some q => simp [h.query q hquery]

/-- The authority of a reference is found in its text. -/
private theorem Proper.splitAuthority_front (h : ref.Proper) :
    splitAuthority ref.front = (ref.authority, ref.path) := by
  cases hauthority : ref.authority with
  | none =>
    have hfront : ref.front = ref.path := by rw [front, hauthority]; rfl
    rw [hfront, splitAuthority, h.noAuthority hauthority]
    rfl
  | some a =>
    obtain ⟨ha, hpath⟩ := h.authority a hauthority
    have hfront : ref.front = ascii "//" ++ (a ++ ref.path) := by
      simp [front, authorityText, hauthority]
    have hslashes : (ascii "//").isPrefixOf (ascii "//" ++ (a ++ ref.path)) = true := by
      simp [List.isPrefixOf_iff_prefix]
    have hdrop : (ascii "//" ++ (a ++ ref.path)).drop 2 = a ++ ref.path := rfl
    -- the authority has no slash, and the path is empty or starts with one
    have hall : ∀ b ∈ a, (b != 47) = true := by
      intro b hb
      rw [bne_iff_ne]
      rintro rfl
      exact ha 47 hb (by decide)
    rw [hfront, splitAuthority, if_pos hslashes, hdrop, List.takeWhile_append_of_pos hall,
      List.dropWhile_append_of_pos hall]
    rcases hpath with hpath | hpath
    · simp [hpath]
    · obtain ⟨rest, hrest⟩ := List.head?_eq_some_iff.mp hpath
      simp [hrest]

private theorem Proper.splitHier_hierText (h : ref.Proper) :
    splitHier ref.scheme ref.hierText = ref := by
  simp only [splitHier, hierText, cutFirst_append h.not_mem_query,
    cutFirst_append h.not_mem_front.1, h.splitAuthority_front]

end Reference

/-! ## References with a scheme -/

/-- The scheme of a text, if it has one. -/
private theorem splitScheme_append {a : List UInt8} (ha : 58 ∉ a) (rest : Option (List UInt8)) :
    splitScheme (a ++ behind 58 rest) =
      match rest with
      | some rest => if a ≠ [] ∧ InAuthority a then (some a, rest) else (none, a ++ 58 :: rest)
      | none => (none, a) := by
  rw [splitScheme, cutFirst_append ha]
  cases rest with
  | none => simp
  | some rest => rfl

/-- Slashes in front of the whole text are slashes in front of the path. -/
private theorem isPrefixOf_slashes (path : List UInt8) (query fragment : Option (List UInt8)) :
    (ascii "//").isPrefixOf (path ++ behind 63 query ++ behind 35 fragment) =
      (ascii "//").isPrefixOf path := by
  match path with
  | [] => cases query <;> cases fragment <;> rfl
  | [b] => cases query <;> cases fragment <;> simp [ascii, List.isPrefixOf]
  | b :: c :: path => simp [ascii, List.isPrefixOf]

/-- `parse` resolves a reference with a scheme. -/
private theorem parse_eq_transform {ref : Reference} (h : ref.Proper) {scheme : List UInt8}
    (href : ref.scheme = some scheme) (hscheme : 58 ∉ scheme) (base : Url) :
    parse (scheme ++ 58 :: ref.hierText) = transform base ref := by
  rw [transform]
  simp only [href]
  cases hauthority : ref.authority with
  | none =>
    have hfront := Reference.front_of_none hauthority
    -- a path that begins with `//` would be an authority
    have hslashes : (ascii "//").isPrefixOf ref.hierText = false := by
      rw [Reference.hierText, hfront, isPrefixOf_slashes]
      exact h.noAuthority hauthority
    rw [parse_noAuthority hscheme hslashes, Reference.hierText, hfront,
      parseRest_append h.path h.query]
    rfl
  | some a =>
    obtain ⟨ha, hpath⟩ := h.authority a hauthority
    have htext : scheme ++ 58 :: ref.hierText = scheme ++ ascii "://" ++ a ++
        (ref.path ++ behind 63 ref.query ++ behind 35 ref.fragment) := by
      simp [Reference.hierText, Reference.front_of_some hauthority, ascii]
    rw [htext, parse_absolute hscheme ha (behindAuthority_append hpath _ _), parseAuthority?]
    rcases parseAuthority_cases a with ⟨e, he⟩ | ⟨userInfo, host, port, hok⟩
    · rw [he]
      rfl
    · rw [hok, Except.map, Except.map, parseRest_append h.path h.query]

/-! ## References without a scheme -/

private theorem hasScheme_append {a : List UInt8} (ha : 58 ∉ a) (rest : Option (List UInt8)) :
    hasScheme (a ++ behind 58 rest) = (rest.isSome && decide (InAuthority a)) := by
  rw [hasScheme, find_behind ha]
  cases rest with
  | none => rfl
  | some rest =>
    have hnone : findFirstOf (ascii "/?#") a = none ↔ InAuthority a := by
      simp only [findFirstOf, List.findIdx?_eq_none_iff, decide_eq_false_iff_not]
      rfl
    simp [hnone]

/-- What `resolve` keeps of the base before it looks at the path. -/
def withQueryFragment (base : Url) (ref : Reference) : Url :=
  { base with query := ref.query.getD [], fragment := ref.fragment.getD [] }

/-- A reference with an authority gives an error if the authority is good, and a URL if it is
    not. -/
private theorem resolveAuthority_append {a path : List UInt8} (ha : InAuthority a)
    (hpath : AbsPath path) (garbage : Error) (url : Url) :
    (∃ url', parseAuthority a url = .ok url' ∧
        resolveAuthority garbage (a ++ path) url = .error garbage) ∨
      ∃ e url', parseAuthority a url = .error e ∧ resolveAuthority garbage (a ++ path) url =
        .ok url' := by
  have hbehind : BehindAuthority path := by simpa using behindAuthority_append hpath none none
  have hend := findFirstOf_authority ha hbehind
  simp only [resolveAuthority, hend, List.take_left]
  cases parseAuthority a url with
  | ok url' => exact .inl ⟨url', rfl, rfl⟩
  | error e => exact .inr ⟨e, _, rfl, rfl⟩

/-- `resolve` in terms of the parts of the reference. -/
private theorem resolve_hierText {ref : Reference} (h : ref.Proper)
    (hscheme : hasScheme ref.hierText = false) (garbage : Error) (base : Url) :
    resolve garbage ref.hierText base =
      if ref.hierText = [] then .ok base
      else if ref.query ≠ none ∧ ref.front = [] then .ok (withQueryFragment base ref)
      else match ref.authority with
        | some a => resolveAuthority garbage (a ++ ref.path) (withQueryFragment base ref)
        | none => .ok { withQueryFragment base ref with path := resolvePath ref.path base } := by
  have hquery : find 63 (ref.front ++ behind 63 ref.query) ≠ none ↔ ref.query ≠ none := by
    rw [find_behind h.not_mem_front.1]
    simp
  -- `//` in front is how an authority begins
  have hbranch : (if (ascii "//").isPrefixOf ref.front then
      resolveAuthority garbage (ref.front.drop 2) (withQueryFragment base ref)
      else .ok { withQueryFragment base ref with path := resolvePath ref.front base }) =
      match ref.authority with
        | some a => resolveAuthority garbage (a ++ ref.path) (withQueryFragment base ref)
        | none => .ok { withQueryFragment base ref with path := resolvePath ref.path base } := by
    cases hauthority : ref.authority with
    | none =>
      rw [Reference.front_of_none hauthority, h.noAuthority hauthority]
      rfl
    | some a =>
      rw [Reference.front_of_some hauthority, if_pos (by simp [List.isPrefixOf_iff_prefix])]
      rfl
  rw [← hbranch]
  rw [Reference.hierText] at hscheme ⊢
  simp only [resolve, hscheme, Bool.false_eq_true, if_false, take_behind h.not_mem_query,
    drop_behind h.not_mem_query, take_behind h.not_mem_front.1, drop_behind h.not_mem_front.1,
    hquery, withQueryFragment]

private theorem rdropWhile_lastSlash {a b : List UInt8} (hb : 47 ∉ b) :
    (a ++ 47 :: b).rdropWhile (· != 47) = a ++ [47] := by
  have hall : ∀ x ∈ b.reverse, (x != 47) = true := by
    intro x hx
    rw [bne_iff_ne]
    rintro rfl
    exact hb (List.mem_reverse.mp hx)
  have hreverse : (a ++ 47 :: b).reverse = b.reverse ++ 47 :: a.reverse := by simp
  rw [List.rdropWhile, hreverse, List.dropWhile_append_of_pos hall]
  simp

/-- The paths are merged as in section 5.2.3, if the base path is empty or starts with a slash. -/
private theorem resolvePath_eq {base : Url} (hbase : AbsPath base.path) (path : List UInt8) :
    resolvePath path base =
      if path = [] then base.path
      else if path.head? = some 47 then removeDotSegments path
      else removeDotSegments (mergePath base.path path) := by
  cases path with
  | nil => rfl
  | cons b path =>
    have hslash : (ascii "/").isPrefixOf (b :: path) = true ↔ b = 47 := by
      show ((47 : UInt8) == b && true) = true ↔ b = 47
      rw [Bool.and_true, beq_iff_eq, eq_comm]
    simp only [resolvePath, hslash, reduceCtorEq, ne_eq, not_false_eq_true, if_true, if_false,
      List.head?_cons, Option.some.injEq]
    split
    · rfl
    · rcases hbase with hempty | hhead
      · rw [if_pos hempty, mergePath, if_pos hempty]
        rfl
      · -- the base path has a last slash
        have hne : base.path ≠ [] := by
          rintro hempty
          rw [hempty] at hhead
          exact absurd hhead (by simp)
        cases hfind : rfind 47 base.path with
        | none => exact absurd (List.mem_of_head? hhead) (rfind_eq_none_iff.mp hfind)
        | some i =>
          obtain ⟨front, last, hpath, hlast, rfl⟩ := eq_append_of_rfind hfind
          have htake : base.path.take (front.length + 1) = front ++ [47] := by
            rw [hpath, List.take_length_add_append]
            rfl
          have hdir : base.path.rdropWhile (· != 47) = front ++ [47] := by
            rw [hpath, rdropWhile_lastSlash hlast]
          rw [if_neg hne, mergePath, if_neg hne, hdir]
          dsimp only
          rw [htake]

/-! ## Agreement -/

/-- The URL has been parsed from `scheme://authority…`. -/
def ParsedWithAuthority (url : Url) : Prop :=
  ∃ scheme authority rest, 58 ∉ scheme ∧ InAuthority authority ∧ BehindAuthority rest ∧
    parse (scheme ++ ascii "://" ++ authority ++ rest) = .ok url

private theorem ParsedWithAuthority.absPath {url : Url} (h : ParsedWithAuthority url) :
    AbsPath url.path := by
  obtain ⟨scheme, authority, rest, hscheme, hauthority, hrest, hparse⟩ := h
  obtain ⟨path, query, fragment, rfl, hpath, hquery⟩ := exists_pathQueryFragment rest
  have habs : AbsPath path := by
    rw [List.append_assoc] at hrest
    exact absPath_of_behindAuthority hpath hrest
  rw [parse_absolute hscheme hauthority hrest] at hparse
  split at hparse
  case isFalse => exact absurd hparse (by simp [makeErrResult])
  case isTrue =>
    rcases parseAuthority_cases authority with ⟨e, he⟩ | ⟨userInfo, host, port, hok⟩
    · rw [he] at hparse
      exact absurd hparse (by simp [Except.map])
    · rw [hok, Except.map, parseRest_append hpath hquery] at hparse
      rw [← Except.ok.inj hparse]
      exact absPath_removeDotSegments habs

/-- The references that `resolve` treats right: those with a scheme, and those that neither start
    with a colon nor have an authority, unless they are empty or a fragment only and the base has a
    fragment or a query. -/
def ResolvesRight (relative : List UInt8) (base : Url) : Prop :=
  (splitReference relative).scheme ≠ none ∨
    relative.head? ≠ some 58 ∧ (splitReference relative).authority = none ∧
      ((splitReference relative).path = [] → (splitReference relative).query = none →
        if relative = [] then base.fragment = [] else base.query = [])

/-- A reference without a scheme. -/
private theorem resolve_eq_iff_noScheme {ref : Reference} (h : ref.Proper)
    (hnone : ref.scheme = none)
    (hscheme : hasScheme ref.hierText = false) (garbage : Error) {base : Url}
    (hbase : AbsPath base.path) :
    resolve garbage ref.hierText base = transform base ref ↔
      ref.authority = none ∧ (ref.path = [] → ref.query = none →
        if ref.hierText = [] then base.fragment = [] else base.query = []) := by
  rw [resolve_hierText h hscheme, transform]
  simp only [hnone]
  cases hauthority : ref.authority with
  | some a =>
    -- a good authority gives an error and a bad one a URL
    simp only [reduceCtorEq, false_and, iff_false]
    obtain ⟨ha, hpath⟩ := h.authority a hauthority
    have hfront : ref.front ≠ [] := by simp [Reference.front_of_some hauthority, ascii]
    have htext : ref.hierText ≠ [] := by simp [Reference.hierText, hfront]
    rw [if_neg htext, if_neg (fun hempty => hfront hempty.2)]
    rcases parseAuthority_cases a with ⟨e, he⟩ | ⟨userInfo, host, port, hok⟩
    · rcases resolveAuthority_append ha hpath garbage (withQueryFragment base ref) with
        ⟨url', hparse, -⟩ | ⟨e', url', -, hresolve⟩
      · exact absurd (hparse.symm.trans (he _)) (by simp)
      · rw [hresolve, he]
        simp [Except.map]
    · rcases resolveAuthority_append ha hpath garbage (withQueryFragment base ref) with
        ⟨url', -, hresolve⟩ | ⟨e', url', hparse, -⟩
      · rw [hresolve, hok]
        simp [Except.map]
      · exact absurd (hparse.symm.trans (hok _)) (by simp)
  | none =>
    have hfront := Reference.front_of_none hauthority
    simp only [true_and, hfront, resolvePath_eq hbase]
    by_cases hpath : ref.path = []
    · cases hquery : ref.query with
      | some q =>
        have htext : ref.hierText ≠ [] := by simp [Reference.hierText, hquery]
        simp [htext, hpath, withQueryFragment, hquery]
      | none =>
        cases hfragment : ref.fragment with
        | none =>
          -- the empty reference gives the base
          have htext : ref.hierText = [] := by
            simp [Reference.hierText, hfront, hpath, hquery, hfragment]
          simp only [htext, if_true, hpath, Option.getD_none, forall_const, Except.ok.injEq]
          exact ⟨fun heq => congrArg Url.fragment heq, fun hempty => by rw [← hempty]⟩
        | some f =>
          -- a fragment alone gives the base without its query
          have htext : ref.hierText ≠ [] := by simp [Reference.hierText, hfragment]
          simp only [htext, if_false, hpath, withQueryFragment, hquery, hfragment, ne_eq,
            not_true_eq_false, false_and, if_true, Option.getD_none, Option.getD_some, forall_const,
            Except.ok.injEq]
          exact ⟨fun heq => (congrArg Url.query heq).symm, fun hempty => by rw [hempty]⟩
    · have htext : ref.hierText ≠ [] := by simp [Reference.hierText, hfront, hpath]
      simp [htext, hpath, withQueryFragment]

/-- A reference that starts with a colon is parsed as if it had a scheme, which is empty and
    refused. -/
private theorem resolve_colon_ne {ref : Reference} {rest : List UInt8} (hnone : ref.scheme = none)
    (htext : 58 :: rest = ref.hierText) (garbage : Error) (base : Url) :
    resolve garbage (58 :: rest) base ≠ transform base ref := by
  have hscheme : hasScheme (58 :: rest) = true := hasScheme_append (a := []) (by simp) (some rest)
  have hparse : resolve garbage (58 :: rest) base =
      makeErrResult .invalidArgument "invalid scheme" := by
    obtain ⟨ref', href', rfl, hproper'⟩ := exists_hierText (some []) rest
    have hempty : validScheme (toLowerAsciiStr []) = false := by decide
    rw [resolve, if_neg (by simp), if_pos hscheme]
    refine (parse_eq_transform hproper' href' (by simp) base).trans ?_
    simp [transform, href', hempty]
  have hauthority : ref.authority = none := by
    cases h : ref.authority with
    | none => rfl
    | some a => simp [Reference.hierText, Reference.front_of_some h, ascii] at htext
  rw [hparse, transform]
  simp only [hnone, hauthority]
  simp [makeErrResult]

/-- `resolve` follows RFC 3986 if and only if the reference has a scheme, or it neither starts with
    a colon nor has an authority and is not one that must keep the query of the base or drop its
    fragment. -/
theorem resolve_eq_transform_iff (garbage : Error) (relative : List UInt8) (base : Url)
    (hbase : ParsedWithAuthority base) :
    resolve garbage relative base = transform base (splitReference relative) ↔
      ResolvesRight relative base := by
  obtain ⟨a, rest, rfl, ha⟩ := exists_cut 58 relative
  by_cases hcolon : ∃ text, a ++ behind 58 rest = 58 :: text
  · -- it has a path and no scheme
    obtain ⟨text, htext⟩ := hcolon
    obtain ⟨ref, href, hhier, hproper⟩ := exists_hierText none (58 :: text)
    have hsplit : splitReference (58 :: text) = ref := by
      have hnone : splitScheme (58 :: text) = (none, 58 :: text) :=
        splitScheme_append (a := []) (by simp) (some text)
      rw [splitReference, hnone]
      dsimp only
      rw [hhier, ← href]
      exact hproper.splitHier_hierText
    rw [htext, hsplit]
    refine iff_of_false (resolve_colon_ne href hhier garbage base) ?_
    simp [ResolvesRight, hsplit, href]
  by_cases hscheme : hasScheme (a ++ behind 58 rest) = true
  · -- the whole reference is parsed
    have hparts := hscheme
    rw [hasScheme_append ha, Bool.and_eq_true, decide_eq_true_eq] at hparts
    obtain ⟨rest, rfl⟩ := Option.isSome_iff_exists.mp hparts.1
    have hne : a ≠ [] := by
      rintro rfl
      exact hcolon ⟨rest, rfl⟩
    obtain ⟨ref, href, rfl, hproper⟩ := exists_hierText (some a) rest
    have hsplit : splitReference (a ++ behind 58 (some ref.hierText)) = ref := by
      rw [splitReference, splitScheme_append ha]
      simp only [hne, hparts.2, ne_eq, not_false_eq_true, and_self, if_true]
      rw [← href]
      exact hproper.splitHier_hierText
    have hright : ResolvesRight (a ++ behind 58 (some ref.hierText)) base := by
      refine .inl ?_
      rw [hsplit, href]
      simp
    refine iff_of_true ?_ hright
    rw [hsplit, resolve, if_neg (by simp), if_pos hscheme]
    exact parse_eq_transform hproper href ha base
  · obtain ⟨ref, href, htext, hproper⟩ := exists_hierText none (a ++ behind 58 rest)
    have hsplit : splitReference (a ++ behind 58 rest) = ref := by
      have hnone : splitScheme (a ++ behind 58 rest) = (none, a ++ behind 58 rest) := by
        rw [hasScheme_append ha] at hscheme
        rw [splitScheme_append ha]
        cases rest with
        | none => simp
        | some rest =>
          have hout : ¬InAuthority a := by simpa using hscheme
          simp [hout]
      rw [splitReference, hnone]
      dsimp only
      rw [htext, ← href]
      exact hproper.splitHier_hierText
    have hhead : (a ++ behind 58 rest).head? ≠ some 58 := by
      intro h
      obtain ⟨text, htext'⟩ := List.head?_eq_some_iff.mp h
      exact hcolon ⟨text, htext'⟩
    rw [ResolvesRight, hsplit, href]
    simp only [hhead, ne_eq, not_true_eq_false, not_false_eq_true, false_or, true_and]
    rw [htext] at hscheme ⊢
    exact resolve_eq_iff_noScheme hproper href (Bool.eq_false_iff.mpr hscheme) garbage hbase.absPath

/-- The URL `http://u@a/b/c?q#f`. -/
def fullBase : Url where
  scheme := ascii "http"
  userInfo := ascii "u"
  host := ascii "a"
  path := ascii "/b/c"
  query := ascii "q"
  fragment := ascii "f"

theorem resolve_eq_transform_iff_fullBase :
    ParsedWithAuthority fullBase ∧ ∀ garbage, resolve garbage (ascii "../d?x") fullBase =
      .ok { fullBase with path := ascii "/d", query := ascii "x", fragment := [] } := by
  have hbase : ParsedWithAuthority fullBase :=
    ⟨ascii "http", ascii "u@a",
      ascii "/b/c?q#f", by decide, by decide, by decide, by decide +kernel⟩
  refine ⟨hbase, fun garbage => ?_⟩
  have hright : ResolvesRight (ascii "../d?x") fullBase := .inr ⟨by decide, by decide, by decide⟩
  rw [(resolve_eq_transform_iff garbage (ascii "../d?x") fullBase hbase).mpr hright]
  decide +kernel

/-- References that are resolved wrongly, against `http://u@a/b/c?q#f`: `//x` gives an error for an
    authority that `parse_authority` accepts, `//x:` gives the base's host for one that it rejects,
    `#g` loses the query of the base, the empty reference keeps its fragment, and `:d` gives an
    error. -/
theorem resolve_fails :
    (∀ garbage, resolve garbage (ascii "//x") fullBase = .error garbage) ∧
      transform fullBase (splitReference (ascii "//x")) =
        .ok { scheme := ascii "http", host := ascii "x", path := [] } ∧
      (∀ garbage, resolve garbage (ascii "//x:") fullBase =
        .ok { fullBase with path := ascii "/", query := [], fragment := [] }) ∧
      transform fullBase (splitReference (ascii "//x:")) =
        makeErrResult .invalidArgument "InvalidPort" ∧
      (∀ garbage, resolve garbage (ascii "#g") fullBase =
        .ok { fullBase with query := [], fragment := ascii "g" }) ∧
      transform fullBase (splitReference (ascii "#g")) =
        .ok { fullBase with fragment := ascii "g" } ∧
      (∀ garbage, resolve garbage [] fullBase = .ok fullBase) ∧
      transform fullBase (splitReference []) = .ok { fullBase with fragment := [] } ∧
      (∀ garbage, resolve garbage (ascii ":d") fullBase =
        makeErrResult .invalidArgument "invalid scheme") ∧
      transform fullBase (splitReference (ascii ":d")) =
        .ok { fullBase with path := ascii "/b/:d", query := [], fragment := [] } := by
  refine ⟨fun garbage => rfl, by decide +kernel, fun garbage => rfl, by decide +kernel,
    fun garbage => rfl, by decide +kernel, fun garbage => rfl, by decide +kernel,
    fun garbage => rfl, ?_⟩
  decide +kernel

end Ppnt.Spec
