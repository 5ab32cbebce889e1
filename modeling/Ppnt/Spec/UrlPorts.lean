import Ppnt.Spec.UrlSyntax

/-!
# Ports of URLs

`parse_authority` hands the text behind the last colon to `std::from_chars`, which reads an `int`:
it takes a minus sign, stops at the first character that is not a digit and knows nothing of 65535.
`ReadsInt` says what it accepts, `ValidPort` what a port is.
-/

namespace Ppnt.Spec

open Ppnt.Native Url

/-! ## Numbers -/

/-- The text starts with a number that fits an `int`, and the digits end there. -/
def ReadsInt (text : List UInt8) (v : Int) : Prop :=
  ∃ digits tail, digits ≠ [] ∧ digits.all isDigit = true ∧ (∀ b ∈ tail.head?, isDigit b = false) ∧
    ((text = digits ++ tail ∧ v = decimalValue digits ∧ v < 2 ^ 31) ∨
      (text = 45 :: (digits ++ tail) ∧ v = -decimalValue digits ∧ -2 ^ 31 ≤ v))

/-- The leading digits are all of them. -/
private theorem leadingDigits_append {digits tail : List UInt8}
    (hdigits : digits.all isDigit = true)
    (htail : ∀ b ∈ tail.head?, isDigit b = false) : leadingDigits (digits ++ tail) = digits := by
  have hall : ∀ b ∈ digits, (48 ≤ b && b ≤ 57) = true := List.all_eq_true.mp hdigits
  rw [leadingDigits, List.takeWhile_append_of_pos hall]
  cases tail with
  | nil => simp
  | cons b tail =>
    have hb : (48 ≤ b && b ≤ 57) = false := htail b rfl
    rw [List.takeWhile_cons_of_neg (by simp [hb]), List.append_nil]

/-- Every text is digits with something else behind. -/
private theorem exists_digits (text : List UInt8) :
    ∃ digits tail, text = digits ++ tail ∧ digits.all isDigit = true ∧
      ∀ b ∈ tail.head?, isDigit b = false := by
  refine ⟨text.takeWhile isDigit, text.dropWhile isDigit, List.takeWhile_append_dropWhile.symm,
    List.all_takeWhile, fun b hb => ?_⟩
  have hnot := List.head?_dropWhile_not isDigit text
  rw [Option.mem_def.mp hb] at hnot
  simpa using hnot

section

variable {digits tail : List UInt8} (hdigits : digits.all isDigit = true)
  (htail : ∀ b ∈ tail.head?, isDigit b = false)

include hdigits htail

private theorem fromChars?_plain (hhead : (digits ++ tail).head? ≠ some 45) :
    fromChars? (digits ++ tail) =
      if digits = [] ∨ 2 ^ 31 ≤ decimalValue digits then none
        else some (decimalValue digits : Int) := by
  have hrange : (decimalValue digits : Int) < -2 ^ 31 ∨ (2 ^ 31 : Int) ≤ decimalValue digits ↔
      2 ^ 31 ≤ decimalValue digits := by omega
  simp only [fromChars?, hhead, if_false, leadingDigits_append hdigits htail, hrange]

private theorem fromChars?_minus :
    fromChars? (45 :: (digits ++ tail)) =
      if digits = [] ∨ 2 ^ 31 < decimalValue digits then none
      else some (-(decimalValue digits : Int)) := by
  have hrange : -(decimalValue digits : Int) < -2 ^ 31 ∨
    (2 ^ 31 : Int) ≤ -(decimalValue digits : Int) ↔
      2 ^ 31 < decimalValue digits := by omega
  simp only [fromChars?, List.head?_cons, if_true, List.drop_one, List.tail_cons,
    leadingDigits_append hdigits htail, hrange]

end

/-- A digit is not a minus sign. -/
private theorem head?_digits_ne {digits : List UInt8} (hne : digits ≠ [])
    (hdigits : digits.all isDigit = true) (tail : List UInt8) :
      (digits ++ tail).head? ≠ some 45 := by
  intro hhead
  obtain ⟨b, digits, rfl⟩ := List.exists_cons_of_ne_nil hne
  obtain rfl : b = 45 := Option.some.inj hhead
  exact absurd (List.all_eq_true.mp hdigits 45 List.mem_cons_self) (by decide)

/-- What `std::from_chars` accepts. -/
theorem fromChars?_eq_some_iff {text : List UInt8} {v : Int} :
    fromChars? text = some v ↔ ReadsInt text v := by
  constructor
  · intro h
    by_cases hhead : text.head? = some 45
    · obtain ⟨rest, rfl⟩ := List.head?_eq_some_iff.mp hhead
      obtain ⟨digits, tail, rfl, hdigits, htail⟩ := exists_digits rest
      rw [fromChars?_minus hdigits htail, Option.ite_none_left_eq_some, not_or] at h
      obtain ⟨⟨hne, hle⟩, hv⟩ := h
      have hv : -(decimalValue digits : Int) = v := Option.some.inj hv
      exact ⟨digits, tail, hne, hdigits, htail, .inr ⟨rfl, hv.symm, by omega⟩⟩
    · obtain ⟨digits, tail, rfl, hdigits, htail⟩ := exists_digits text
      rw [fromChars?_plain hdigits htail hhead, Option.ite_none_left_eq_some, not_or] at h
      obtain ⟨⟨hne, hlt⟩, hv⟩ := h
      have hv : (decimalValue digits : Int) = v := Option.some.inj hv
      exact ⟨digits, tail, hne, hdigits, htail, .inl ⟨rfl, hv.symm, by omega⟩⟩
  · rintro ⟨digits, tail, hne, hdigits, htail, ⟨rfl, rfl, hlt⟩ | ⟨rfl, rfl, hle⟩⟩
    · rw [fromChars?_plain hdigits htail (head?_digits_ne hne hdigits tail), if_neg]
      simp only [hne, false_or]
      omega
    · rw [fromChars?_minus hdigits htail, if_neg]
      simp only [hne, false_or]
      omega

/-! ## Ports -/

/-- The text is a port: digits, for a number that fits sixteen bits. -/
def ValidPort (port : List UInt8) : Prop :=
  port ≠ [] ∧ port.all isDigit = true ∧ decimalValue port ≤ 65535

instance : DecidablePred ValidPort := fun _ => inferInstanceAs (Decidable (_ ∧ _ ∧ _))

/-- A port is read as its number. -/
private theorem ValidPort.readsInt_iff {port : List UInt8} (h : ValidPort port) {v : Int} :
    ReadsInt port v ↔ v = decimalValue port := by
  obtain ⟨hne, hdigits, hle⟩ := h
  have hread : ReadsInt port (decimalValue port) :=
    ⟨port, [], hne, hdigits, by simp, .inl ⟨by simp, rfl, by omega⟩⟩
  rw [← fromChars?_eq_some_iff] at hread ⊢
  rw [hread, Option.some.injEq, eq_comm]

/-- The input is `scheme://authority…`, and `port` is the text behind the colon of the authority. -/
def PortOf (input scheme port : List UInt8) : Prop :=
  ∃ authority rest host, input = scheme ++ ascii "://" ++ authority ++ rest ∧ 58 ∉ scheme ∧
    InAuthority authority ∧ BehindAuthority rest ∧ PortPart (behindUserInfo authority) host port

/-- A URL with a port is accepted if its scheme is and the port is read as a number. -/
theorem exists_parse_iff {input scheme port : List UInt8} (h : PortOf input scheme port) {v : Int} :
    (∃ url, parse input = .ok url ∧ url.port = v) ↔
      validScheme (toLowerAsciiStr scheme) = true ∧ ReadsInt port v := by
  obtain ⟨authority, rest, host, rfl, hscheme, hauthority, hrest, hport⟩ := h
  obtain ⟨userInfo, heq⟩ := parseAuthority_eq authority
  rw [parse_absolute hscheme hauthority hrest, heq, parseHostPort_of_port hport,
    ← fromChars?_eq_some_iff]
  by_cases hvalid : validScheme (toLowerAsciiStr scheme) = true
  · cases hnum : fromChars? port with
    | none => simp [hvalid, makeErrResult, Except.map]
    | some w =>
      -- the rest of the text leaves the port alone
      simp [hvalid, Except.map, parseRest]
  · simp [hvalid, makeErrResult]

/-- Ports are validated: what is accepted is a port, and kept; what is not a port is rejected; and
    `-1` stands for no port. -/
structure PortsValid (input : List UInt8) : Prop where
  accepted : ∀ scheme port url, PortOf input scheme port → parse input = .ok url →
    ValidPort port ∧ url.port = decimalValue port
  rejected : ∀ scheme port, PortOf input scheme port → ¬ValidPort port → ∃ e, parse input = .error e
  noPort : ∀ url, parse input = .ok url → url.port = -1 → ∀ scheme port, ¬PortOf input scheme port

/-- Ports are validated, unless `std::from_chars` reads more than ports.  Apart from schemes that
    are rejected, the exceptions are the texts that start with a number and are not ports: a minus
    sign in front, something behind the digits, or more than 65535. -/
theorem ports_valid_iff (input : List UInt8) :
    PortsValid input ↔ ∀ scheme port v, PortOf input scheme port →
      validScheme (toLowerAsciiStr scheme) = true → ReadsInt port v → ValidPort port := by
  constructor
  · intro h scheme port v hport hscheme hread
    obtain ⟨url, hparse, -⟩ := (exists_parse_iff hport).mpr ⟨hscheme, hread⟩
    exact (h.accepted scheme port url hport hparse).1
  · intro h
    have haccepted : ∀ scheme port url, PortOf input scheme port → parse input = .ok url →
        ValidPort port ∧ url.port = decimalValue port := by
      intro scheme port url hport hparse
      obtain ⟨hscheme, hread⟩ := (exists_parse_iff hport).mp ⟨url, hparse, rfl⟩
      have hvalid := h scheme port url.port hport hscheme hread
      exact ⟨hvalid, hvalid.readsInt_iff.mp hread⟩
    refine ⟨haccepted, ?_, ?_⟩
    · intro scheme port hport hinvalid
      cases hparse : parse input with
      | error e => exact ⟨e, rfl⟩
      | ok url => exact absurd (haccepted scheme port url hport hparse).1 hinvalid
    · intro url hparse hnone scheme port hport
      have heq := (haccepted scheme port url hport hparse).2
      omega

/-- A port that is not one, and accepted. -/
private theorem not_portsValid {authority : List UInt8} (host port : List UInt8) (url : Url)
    (hauthority : InAuthority authority) (hport : PortPart (behindUserInfo authority) host port)
    (hinvalid : ¬ValidPort port) (hparse : parse (ascii "http://" ++ authority) = .ok url) :
    ¬PortsValid (ascii "http://" ++ authority) := by
  intro h
  have hportOf : PortOf (ascii "http://" ++ authority) (ascii "http") port :=
    ⟨authority, [], host, by simp [ascii], by decide, hauthority, by decide, hport⟩
  exact hinvalid (h.accepted _ port url hportOf hparse).1

/-- The ports of three URLs that `parse` accepts are a sign with a number, a number with a letter
    behind it and a number that is too large; the first URL then has no port. -/
theorem port_not_validated :
    (parse (ascii "http://" ++ ascii "a:-1")).map Url.port = .ok (-1) ∧
      (parse (ascii "http://" ++ ascii "a:80x")).map Url.port = .ok 80 ∧
      (parse (ascii "http://" ++ ascii "a:70000")).map Url.port = .ok 70000 ∧
      ¬PortsValid (ascii "http://" ++ ascii "a:-1") ∧
      ¬PortsValid (ascii "http://" ++ ascii "a:80x") ∧
      ¬PortsValid (ascii "http://" ++ ascii "a:70000") := by
  have hsign : ¬PortsValid (ascii "http://" ++ ascii "a:-1") :=
    not_portsValid (ascii "a") (ascii "-1")
      { scheme := ascii "http", host := ascii "a", port := -1, path := [] }
      (by decide) (by decide) (by decide) (by decide +kernel)
  have hletter : ¬PortsValid (ascii "http://" ++ ascii "a:80x") :=
    not_portsValid (ascii "a") (ascii "80x")
      { scheme := ascii "http", host := ascii "a", port := 80, path := [] }
      (by decide) (by decide) (by decide) (by decide +kernel)
  have hlarge : ¬PortsValid (ascii "http://" ++ ascii "a:70000") :=
    not_portsValid (ascii "a") (ascii "70000")
      { scheme := ascii "http", host := ascii "a", port := 70000, path := [] }
      (by decide) (by decide) (by decide) (by decide +kernel)
  exact ⟨by decide +kernel, by decide +kernel, by decide +kernel, hsign, hletter, hlarge⟩

end Ppnt.Spec
