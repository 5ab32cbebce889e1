import Mathlib.Data.List.Induction
import Ppnt.Spec.ClientHelloLengths

/-!
# Rewriting a message again, and the order of its extensions

`rewrite_encode` says what `rewrite` makes of a message that is given as a value.  Rewriting is then
the merge of the spec with a list of extensions, and the rest is about `mergeExtensions`.
-/

namespace Ppnt.Spec

open Ppnt.Native

/-! ## Merging -/

variable {es : List Extension} {cfg : TlsExtensionConfig} {cfgs : List TlsExtensionConfig}

private theorem fst_of_mem_configured {e : Extension} (h : e ∈ configured es cfg) :
    e.1 = cfg.id := by
  unfold configured at h
  split at h
  case h_1 => simp at h
  case h_2 => rw [List.mem_singleton.mp h]
  case h_3 => simpa using List.find?_some (Option.mem_toList.mp h)

private theorem mergeExtensions_nil (es : List Extension) : mergeExtensions [] es = es := by
  simp [mergeExtensions]

/-- An extension is found under its id, if the ids are distinct. -/
private theorem find?_of_nodup (hes : (es.map (·.1)).Nodup) {e : Extension} (he : e ∈ es) :
    es.find? (fun e' => e'.1 == e.1) = some e := by
  induction es with
  | nil => simp at he
  | cons x es ih =>
    rw [List.map_cons, List.nodup_cons] at hes
    rcases List.mem_cons.mp he with rfl | hmem
    · simp
    · have hne : x.1 ≠ e.1 := fun heq => hes.1 (heq ▸ List.mem_map_of_mem hmem)
      rw [List.find?_cons_of_neg (by simpa using hne)]
      exact ih hes.2 hmem

/-- Extensions that are listed in their own order stay as they are. -/
private theorem mergeExtensions_self (hes : (es.map (·.1)).Nodup)
    (hids : cfgs.map (·.id) = es.map (·.1)) (hauto : ∀ cfg ∈ cfgs, cfg.strategy = .auto) :
    mergeExtensions cfgs es = es := by
  have hconfigured : cfgs.flatMap (configured es) = es :=
    calc cfgs.flatMap (configured es)
        = cfgs.flatMap fun cfg => (es.find? fun e => e.1 == cfg.id).toList := by
          refine List.flatMap_congr fun cfg hcfg => ?_
          simp only [configured, hauto cfg hcfg]
      _ = (cfgs.map (·.id)).flatMap fun id => (es.find? fun e => e.1 == id).toList := by
          rw [List.flatMap_map]
      _ = es.flatMap fun e => (es.find? fun e' => e'.1 == e.1).toList := by
          rw [hids, List.flatMap_map]
      _ = es.flatMap fun e => [e] := by
          refine List.flatMap_congr fun e he => ?_
          rw [find?_of_nodup hes he, Option.toList_some]
      _ = es := by simp
  have hrest : es.filter (fun e => e.1 ∉ cfgs.map (·.id)) = [] := by
    rw [List.filter_eq_nil_iff, hids]
    intro e he
    simpa using ⟨e.2, he⟩
  rw [mergeExtensions, hconfigured, hrest, List.append_nil]

/-- What the spec has put under an id is found under it. -/
private theorem find?_configured (hcfgs : (cfgs.map (·.id)).Nodup) (hcfg : cfg ∈ cfgs) :
    (cfgs.flatMap (configured es)).find? (fun e => e.1 == cfg.id) = (configured es cfg).head? := by
  have hfind : ∀ c : TlsExtensionConfig, c.id ≠ cfg.id →
      (configured es c).find? (fun e => e.1 == cfg.id) = none := by
    intro c hne
    rw [List.find?_eq_none]
    intro e he
    simpa [fst_of_mem_configured he] using hne
  have hown : (configured es cfg).find? (fun e => e.1 == cfg.id) = (configured es cfg).head? := by
    cases hconf : configured es cfg with
    | nil => rfl
    | cons e rest =>
      have he : e.1 = cfg.id := fst_of_mem_configured (hconf ▸ List.mem_cons_self)
      rw [List.find?_cons_of_pos (by simpa using he), List.head?_cons]
  induction cfgs with
  | nil => simp at hcfg
  | cons c cfgs ih =>
    rw [List.map_cons, List.nodup_cons] at hcfgs
    rw [List.flatMap_cons, List.find?_append]
    rcases List.mem_cons.mp hcfg with rfl | hmem
    · rw [hown]
      cases hhead : (configured es cfg).head? with
      | some e => rfl
      | none =>
        -- no other entry of the spec has this id
        rw [Option.none_or, List.find?_eq_none]
        intro e he
        obtain ⟨c, hc, he⟩ := List.mem_flatMap.mp he
        have hne : c.id ≠ cfg.id := fun heq => hcfgs.1 (heq ▸ List.mem_map_of_mem hc)
        simpa [fst_of_mem_configured he] using hne
    · have hne : c.id ≠ cfg.id := fun heq => hcfgs.1 (heq ▸ List.mem_map_of_mem hmem)
      rw [hfind c hne, Option.none_or, ih hcfgs.2 hmem]

/-- The merged list has under an id of the spec what the spec has put there. -/
private theorem configured_mergeExtensions (es : List Extension) (hcfgs : (cfgs.map (·.id)).Nodup)
    (hcfg : cfg ∈ cfgs) :
    configured (mergeExtensions cfgs es) cfg = configured es cfg := by
  cases hs : cfg.strategy with
  | drop | forceData => simp [configured, hs]
  | auto =>
    have hrest : (es.filter fun e => e.1 ∉ cfgs.map (·.id)).find? (fun e => e.1 == cfg.id) =
        none := by
      rw [List.find?_eq_none]
      intro e he heq
      have hid : e.1 = cfg.id := by simpa using heq
      have hnot : e.1 ∉ cfgs.map (·.id) := by simpa using (List.mem_filter.mp he).2
      exact hnot (hid ▸ List.mem_map_of_mem hcfg)
    have hfound : (mergeExtensions cfgs es).find? (fun e => e.1 == cfg.id) =
        es.find? (fun e => e.1 == cfg.id) := by
      rw [mergeExtensions, List.find?_append, find?_configured hcfgs hcfg, hrest, Option.or_none]
      simp [configured, hs]
    simp only [configured, hs, hfound]

private theorem mergeExtensions_idem (hcfgs : (cfgs.map (·.id)).Nodup) (es : List Extension) :
    mergeExtensions cfgs (mergeExtensions cfgs es) = mergeExtensions cfgs es := by
  have hconfigured : cfgs.flatMap (configured (mergeExtensions cfgs es)) =
      cfgs.flatMap (configured es) :=
    List.flatMap_congr fun cfg hcfg => configured_mergeExtensions es hcfgs hcfg
  have hown : (cfgs.flatMap (configured es)).filter (fun e => e.1 ∉ cfgs.map (·.id)) = [] := by
    rw [List.filter_eq_nil_iff]
    intro e he
    obtain ⟨cfg, hcfg, he⟩ := List.mem_flatMap.mp he
    have hmem : e.1 ∈ cfgs.map (·.id) := fst_of_mem_configured he ▸ List.mem_map_of_mem hcfg
    simpa using hmem
  have hrest : (mergeExtensions cfgs es).filter (fun e => e.1 ∉ cfgs.map (·.id)) =
      es.filter (fun e => e.1 ∉ cfgs.map (·.id)) := by
    rw [mergeExtensions, List.filter_append, hown, List.nil_append, List.filter_filter]
    simp
  nth_rewrite 1 [mergeExtensions]
  rw [hconfigured, hrest, ← mergeExtensions]

/-! ## Rewriting a message -/

private theorem encodeU16_inj {v w : UInt16}
    (h : ClientHello.encodeU16 v = ClientHello.encodeU16 w) : v = w := by
  have hv := ClientHello.decodeU16_append v []
  rw [h, ClientHello.decodeU16_append w []] at hv
  exact (Prod.mk.inj (Option.some.inj hv)).1.symm

/-- The parts of a message that fits. -/
def HelloSyntax.ofMessage (m : ClientHello) (hfits : m.Fits) : HelloSyntax where
  handshakeLen := Bytes.toBE 3 m.encodeBody.length
  legacyVersion := ClientHello.encodeU16 m.legacyVersion
  random := m.random
  sessionId := m.sessionId
  ciphers := m.cipherSuites.flatMap ClientHello.encodeU16
  compression := m.compressionMethods
  extensions := m.extensions
  trailing := []
  handshakeLen_length := Bytes.length_toBE 3 _
  legacyVersion_length := Bytes.length_toBE 2 _
  random_length := hfits.random
  sessionId_length := hfits.sessionId
  ciphers_length := by
    rw [ClientHello.length_flatMap_encodeU16]
    exact hfits.cipherSuites
  compression_length := hfits.compressionMethods
  extensions_length := hfits.extensions

private theorem HelloSyntax.bytes_ofMessage (m : ClientHello) (hfits : m.Fits) :
    (ofMessage m hfits).bytes = m.encode := by
  simp [HelloSyntax.bytes, ofMessage, ClientHello.encode, ClientHello.encodeBody, Wire.encodeVec]

/-- `rewrite` on a message whose parts fit. -/
theorem rewrite_encode (native : Endian) {original : Span} {m : ClientHello} (hfits : m.Fits)
    (hbytes : original.bytes = m.encode) (spec : ClientHelloSpec) :
    rewrite native original spec = .ok (ClientHello.encode { m with
      cipherSuites := spec.cipherSuites
      compressionMethods := spec.compressionMethod
      extensions := mergeExtensions spec.extensions m.extensions }) := by
  have hsyntax := hbytes.trans (HelloSyntax.bytes_ofMessage m hfits).symm
  obtain ⟨hello, hparse, hholds⟩ := parseOriginal_complete native _ hsyntax
  have hversion : m.legacyVersion = hello.legacyVer := encodeU16_inj hholds.legacyVersion
  have hrandom : m.random = hello.random.bytes := hholds.random
  have hsessionId : m.sessionId = hello.sessionId.bytes := hholds.sessionId
  have hextensions : m.extensions = extensionsOf hello := hholds.extensions
  rw [rewrite_eq hparse, rewritten, hversion, hrandom, hsessionId, hextensions]

/-- A message that fits is a span. -/
private theorem length_encode_lt {m : ClientHello} (hfits : m.Fits) : m.encode.length < 2 ^ 63 := by
  have hbody := hfits.length_encodeBody
  rw [ClientHello.encode, List.length_cons, Wire.length_encodeVec]
  omega

/-- A strictly well-formed message is rewritten to itself under its own cipher and compression lists
    and either no extension list or all its extensions in their order as `Auto`.  Rewriting an
    output again under the same spec changes nothing, if the ids of the spec are distinct and its
    parts fit. -/
theorem rewrite_stable (native : Endian) :
    (∀ (original : Span) (m : ClientHello) (extensions : List TlsExtensionConfig),
      ClientHello.decode original.bytes = some m →
      (extensions = [] ∨ (m.extensions.map (·.1)).Nodup ∧
        extensions.map (·.id) = m.extensions.map (·.1) ∧
        ∀ cfg ∈ extensions, cfg.strategy = .auto) →
      rewrite native original ⟨m.cipherSuites, m.compressionMethods, extensions⟩ =
        .ok original.bytes) ∧
    ∀ (original : Span) (spec : ClientHelloSpec) (hello : ParsedHello),
      parseOriginal native original = .ok hello → (spec.extensions.map (·.id)).Nodup →
      PartsFit hello spec → ∃ out : Span, rewrite native original spec = .ok out.bytes ∧
        rewrite native out spec = .ok out.bytes := by
  constructor
  · intro original m extensions hdecode hown
    obtain ⟨hbytes, hfits⟩ := ClientHello.encode_of_decode hdecode
    have hmerge : mergeExtensions extensions m.extensions = m.extensions := by
      rcases hown with rfl | ⟨hnodup, hids, hauto⟩
      · exact mergeExtensions_nil m.extensions
      · exact mergeExtensions_self hnodup hids hauto
    rw [rewrite_encode native hfits hbytes, hmerge, hbytes]
  · -- the first output parses to what it was written from
    intro original spec hello hparse hids hparts
    have hfits := (rewritten_fits_iff (parseOriginal_describes hparse) spec).mpr hparts
    refine ⟨⟨(rewritten hello spec).encode, length_encode_lt hfits⟩, rewrite_eq hparse spec, ?_⟩
    rw [rewrite_encode native hfits rfl]
    simp only [rewritten, mergeExtensions_idem hids]

/-- A message that the strict decoder accepts. -/
def strictOriginal : Span where
  bytes := (rewritten sampleHello sampleSpec).encode
  size_lt := by decide

theorem rewrite_stable_sample :
    ClientHello.decode strictOriginal.bytes = some (rewritten sampleHello sampleSpec) ∧
      rewrite .little strictOriginal ⟨(rewritten sampleHello sampleSpec).cipherSuites,
        (rewritten sampleHello sampleSpec).compressionMethods, [{ id := 43 }, { id := 16 }]⟩ =
        .ok strictOriginal.bytes ∧
      parseOriginal .little sampleOriginal = .ok sampleHello ∧
      (sampleSpec.extensions.map (·.id)).Nodup ∧ PartsFit sampleHello sampleSpec ∧
      ∃ out : Span, rewrite .little sampleOriginal sampleSpec = .ok out.bytes ∧
        rewrite .little out sampleSpec = .ok out.bytes := by
  have hdecode : ClientHello.decode strictOriginal.bytes =
    some (rewritten sampleHello sampleSpec) := by
    decide +kernel
  have hparse : parseOriginal .little sampleOriginal = .ok sampleHello := by decide +kernel
  have hparts : PartsFit sampleHello sampleSpec := ⟨by decide, by decide, by decide⟩
  refine ⟨hdecode, ?_, hparse, by decide, hparts, ?_⟩
  · exact (rewrite_stable .little).1 strictOriginal (rewritten sampleHello sampleSpec)
      [{ id := 43 }, { id := 16 }] hdecode (.inr ⟨by decide, by decide, by decide⟩)
  · exact (rewrite_stable .little).2 sampleOriginal sampleSpec sampleHello hparse (by decide) hparts

/-! ## `pre_shared_key` -/

/-- The id of `pre_shared_key`. -/
def pskId : UInt16 := 0x0029

def EndsWithPsk (es : List Extension) : Prop := ∃ front e, es = front ++ [e] ∧ e.1 = pskId

/-- If there is a `pre_shared_key`, it is the last extension. -/
def PskLast (es : List Extension) : Prop := pskId ∈ es.map (·.1) → EndsWithPsk es

/-- The spec does not list `pre_shared_key`, or it lists every extension of the original and nothing
    that is written behind `pre_shared_key`. -/
def PskSafe (cfgs : List TlsExtensionConfig) (es : List Extension) : Prop :=
  pskId ∉ cfgs.map (·.id) ∨
    (∀ e ∈ es, e.1 ∈ cfgs.map (·.id)) ∧ ∃ before cfg after, cfgs = before ++ cfg :: after ∧
      cfg.id = pskId ∧ ∀ c ∈ after, configured es c = []

/-- The last element comes from the last part that is not empty. -/
private theorem exists_last_of_flatMap {α β : Type} {f : α → List β} {l : List α} {front : List β}
    {x : β} (h : l.flatMap f = front ++ [x]) :
    ∃ before a after, l = before ++ a :: after ∧ x ∈ f a ∧ ∀ b ∈ after, f b = [] := by
  induction l using List.reverseRec with
  | nil => simp at h
  | append_singleton l a ih =>
    rw [List.flatMap_append, List.flatMap_singleton] at h
    rcases List.eq_nil_or_concat (f a) with hnil | ⟨init, y, hy⟩
    · rw [hnil, List.append_nil] at h
      obtain ⟨before, b, after, rfl, hx, hafter⟩ := ih h
      refine ⟨before, b, after ++ [a], by simp, hx, fun c hc => ?_⟩
      rcases List.mem_append.mp hc with hmem | hmem
      · exact hafter c hmem
      · rw [List.mem_singleton.mp hmem, hnil]
    · rw [hy, List.concat_eq_append, ← List.append_assoc] at h
      obtain ⟨-, hyx⟩ := List.append_inj' h rfl
      refine ⟨l, a, [], rfl, ?_, by simp⟩
      rw [hy, ← List.singleton_inj.mp hyx]
      simp

/-- A `pre_shared_key` that is listed and not dropped is written. -/
private theorem exists_configured (hes : EndsWithPsk es) (hid : cfg.id = pskId)
    (hkeep : cfg.strategy ≠ .drop) :
    ∃ e, configured es cfg = [e] ∧ e.1 = pskId := by
  have hsingle : ∃ e, configured es cfg = [e] := by
    cases hs : cfg.strategy with
    | drop => exact absurd hs hkeep
    | forceData => exact ⟨(cfg.id, cfg.data), by simp [configured, hs]⟩
    | auto =>
      obtain ⟨front, e, rfl, he⟩ := hes
      cases hfind : (front ++ [e]).find? (fun e => e.1 == cfg.id) with
      | some e' => exact ⟨e', by simp only [configured, hs, hfind, Option.toList_some]⟩
      | none => simp [hid, he] at hfind
  obtain ⟨e, he⟩ := hsingle
  exact ⟨e, he, (fst_of_mem_configured (he ▸ List.mem_singleton_self e)).trans hid⟩

private theorem endsWithPsk_append {es' : List Extension} (h : EndsWithPsk es') :
    EndsWithPsk (es ++ es') := by
  obtain ⟨front, e, rfl, he⟩ := h
  exact ⟨es ++ front, e, (List.append_assoc es front [e]).symm, he⟩

/-- When `pre_shared_key` is still the last extension. -/
private theorem pskLast_mergeExtensions_iff (hes : EndsWithPsk es)
    (hkeep : ∀ cfg ∈ cfgs, cfg.id = pskId → cfg.strategy ≠ .drop) :
    PskLast (mergeExtensions cfgs es) ↔ PskSafe cfgs es := by
  by_cases hlisted : pskId ∈ cfgs.map (·.id)
  · obtain ⟨cfg, hcfg, hid⟩ := List.mem_map.mp hlisted
    obtain ⟨e, he, heid⟩ := exists_configured hes hid (hkeep cfg hcfg hid)
    -- it is in the output
    have hmem : pskId ∈ (mergeExtensions cfgs es).map (·.1) := by
      refine List.mem_map.mpr ⟨e, List.mem_append_left _ ?_, heid⟩
      exact List.mem_flatMap.mpr ⟨cfg, hcfg, he ▸ List.mem_singleton_self e⟩
    simp only [PskLast, hmem, forall_const, PskSafe, hlisted, not_true_eq_false, false_or]
    constructor
    · rintro ⟨front, x, hmerge, hx⟩
      have hrest : es.filter (fun e => e.1 ∉ cfgs.map (·.id)) = [] := by
        rcases List.eq_nil_or_concat (es.filter fun e => e.1 ∉ cfgs.map (·.id)) with
          hnil | ⟨init, y, hy⟩
        · exact hnil
        · -- the last extension would be one that is not listed
          have hymem : y ∈ es.filter fun e => e.1 ∉ cfgs.map (·.id) := by
            rw [hy]
            simp
          have hnot : y.1 ∉ cfgs.map (·.id) := by simpa using (List.mem_filter.mp hymem).2
          rw [mergeExtensions, hy, List.concat_eq_append, ← List.append_assoc] at hmerge
          obtain ⟨-, hyx⟩ := List.append_inj' hmerge rfl
          rw [List.singleton_inj.mp hyx, hx] at hnot
          exact absurd hlisted hnot
      rw [mergeExtensions, hrest, List.append_nil] at hmerge
      obtain ⟨before, c, after, hsplit, hxmem, hafter⟩ := exists_last_of_flatMap hmerge
      refine ⟨fun e he => ?_, before, c, after, hsplit, ?_, hafter⟩
      · have := List.filter_eq_nil_iff.mp hrest e he
        simpa using this
      · rw [← fst_of_mem_configured hxmem, hx]
    · rintro ⟨hall, before, c, after, rfl, hcid, hafter⟩
      obtain ⟨x, hx, hxid⟩ := exists_configured hes hcid (hkeep c (by simp) hcid)
      have hrest : es.filter (fun e => e.1 ∉ (before ++ c :: after).map (·.id)) = [] := by
        rw [List.filter_eq_nil_iff]
        intro e he
        simp only [hall e he, not_true_eq_false, decide_false, Bool.false_eq_true,
          not_false_eq_true]
      have hnone : after.flatMap (configured es) = [] := List.flatMap_eq_nil_iff.mpr hafter
      refine ⟨before.flatMap (configured es), x, ?_, hxid⟩
      rw [mergeExtensions, hrest, List.flatMap_append, List.flatMap_cons, hx, hnone]
      simp
  · obtain ⟨front, e, rfl, he⟩ := hes
    refine ⟨fun _ => .inl hlisted, fun _ _ => endsWithPsk_append ?_⟩
    refine ⟨front.filter fun e => e.1 ∉ cfgs.map (·.id), e, ?_, he⟩
    have hkept : decide (e.1 ∉ cfgs.map (·.id)) = true := by
      rw [he]
      exact decide_eq_true hlisted
    rw [List.filter_append, List.filter_singleton, hkept]
    rfl

/-- `pre_shared_key` stays last in the output for an original that ends with it and a spec that does
    not drop it exactly when the spec is safe. -/
theorem psk_last_iff (native : Endian) (original : Span) (spec : ClientHelloSpec)
    (hello : ParsedHello) (hparse : parseOriginal native original = .ok hello)
    (hlast : EndsWithPsk (extensionsOf hello))
    (hkeep : ∀ cfg ∈ spec.extensions, cfg.id = pskId → cfg.strategy ≠ .drop) :
    rewrite native original spec = .ok (rewritten hello spec).encode ∧
      (PartsFit hello spec →
        ClientHello.decode (rewritten hello spec).encode = some (rewritten hello spec)) ∧
      (PskLast (rewritten hello spec).extensions ↔
        PskSafe spec.extensions (extensionsOf hello)) := by
  refine ⟨rewrite_eq hparse spec, fun hparts => ?_, pskLast_mergeExtensions_iff hlast hkeep⟩
  exact ClientHello.decode_encode
    ((rewritten_fits_iff (parseOriginal_describes hparse) spec).mpr hparts)

/-- A hello with a GREASE extension in front of `pre_shared_key`. -/
def greaseMessage : ClientHello where
  legacyVersion := 0x0303
  random := List.replicate 32 7
  sessionId := []
  cipherSuites := [0x1301]
  compressionMethods := [0]
  extensions := [(0x0a0a, []), (pskId, [1])]

def greaseOriginal : Span where
  bytes := greaseMessage.encode
  size_lt := by decide

/-- What `parseOriginal` makes of it. -/
def greaseHello : ParsedHello where
  legacyVer := 0x0303
  random := sampleHello.random
  sessionIdLen := 0
  sessionId := sampleHello.sessionId
  parsedExtensions := [(0x0a0a, ⟨[], sampleHello.sessionId.size_lt⟩), (pskId, ⟨[1], by decide⟩)]

/-- A spec that keeps the original's lists and names `pre_shared_key` as `Auto`. -/
def pskSpec : ClientHelloSpec := ⟨[0x1301], [0], [{ id := pskId }]⟩

theorem psk_last_iff_listed :
    rewrite .little greaseOriginal ⟨[0x1301], [0], [{ id := 0x0a0a }, { id := pskId }]⟩ =
      .ok greaseOriginal.bytes ∧
    PskLast (rewritten greaseHello
      ⟨[0x1301], [0], [{ id := 0x0a0a }, { id := pskId }]⟩).extensions := by
  obtain ⟨hrewrite, -, hiff⟩ := psk_last_iff .little greaseOriginal
    ⟨[0x1301], [0], [{ id := 0x0a0a }, { id := pskId }]⟩ greaseHello (by decide +kernel)
    ⟨[(0x0a0a, [])], (pskId, [1]), rfl, rfl⟩ (by decide)
  refine ⟨hrewrite,
    hiff.mpr (.inr ⟨by decide, [{ id := 0x0a0a }], { id := pskId }, [], rfl, rfl, ?_⟩)⟩
  exact fun c hc => absurd hc List.not_mem_nil

/-- The GREASE extension, which the spec does not list, ends up behind `pre_shared_key`. -/
theorem psk_not_last :
    ClientHello.decode greaseOriginal.bytes = some greaseMessage ∧
      (∃ out, rewrite .little greaseOriginal pskSpec = .ok out ∧
        (ClientHello.decode out).map (·.extensions) = some [(pskId, [1]), (0x0a0a, [])]) ∧
      PskLast greaseMessage.extensions ∧ ¬ PskLast [(pskId, [1]), (0x0a0a, [])] := by
  have hout : (rewrite .little greaseOriginal pskSpec).toOption.bind
      (fun out => (ClientHello.decode out).map (·.extensions)) =
        some [(pskId, [1]), (0x0a0a, [])] := by
    decide +kernel
  refine ⟨by decide +kernel, ?_, fun _ => ⟨[(0x0a0a, [])], (pskId, [1]), rfl, rfl⟩, fun h => ?_⟩
  · cases hrewrite : rewrite .little greaseOriginal pskSpec with
    | ok out => exact ⟨out, rfl, by simpa [hrewrite, Except.toOption] using hout⟩
    | error e => simp [hrewrite, Except.toOption] at hout
  · obtain ⟨front, e, heq, he⟩ := h (by decide)
    have hgetLast := congrArg List.getLast? heq
    rw [List.getLast?_append, List.getLast?_singleton, Option.some_or] at hgetLast
    rw [← Option.some.inj hgetLast] at he
    exact absurd he (by decide)

end Ppnt.Spec
