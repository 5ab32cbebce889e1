import Ppnt.ForStd.Spans
import Ppnt.Spec.Http1Syntax

/-!
# HTTP/1.1 messages on the wire

The bytes that well-formed requests and responses are sent as, and for each byte what llhttp
reports around it (`toks`).  An element that ends at a delimiter (request target, reason phrase,
field name, field value) is reported when the delimiter is seen; body data ends by count and is
reported with its last byte; an empty field value is reported when the next line starts, since
that line could still continue it.

`Parses` is what is assumed of llhttp for one message: fed that message in any pieces, it makes
the callbacks `Spans.deliver` computes for each piece.
-/

namespace Ppnt.Spec

open Ppnt.Native Spans

abbrev HOp := Op DataCb Cb

abbrev HTok := Tok DataCb Cb

/-! ## Bytes and operations -/

/-- One header or trailer line in front of what follows it. -/
def headerToks : List HeaderLine → List HTok → List HTok
  | [], rest => rest
  | h :: hs, rest =>
    onFirst [.start .onHeaderField] (plain h.name) ++ onFirst [.stop] (plain (58 :: h.ows)) ++
      if h.text = [] then
        plain crlf ++ onFirst [.start .onHeaderValue, .stop] (headerToks hs rest)
      else
        onFirst [.start .onHeaderValue] (plain h.text) ++ onFirst [.stop] (plain crlf) ++
          headerToks hs rest

/-- Body data whose length is known in advance. -/
def dataToks (data : List UInt8) : List HTok :=
  onLast [.stop] (onFirst [.start .onBody] (plain data))

def chunkToks (c : Chunk) : List HTok :=
  plain c.bytes ++ dataToks c.data ++ plain crlf

def Framing.toks : Framing → List HTok
  | none => []
  | fixed body => dataToks body
  | chunked chunks last trailers =>
    chunks.flatMap chunkToks ++ plain last.bytes ++ headerToks trailers (plain crlf)
  | untilEof body => onFirst [.start .onBody] (plain body)
  | suppressed => []

/-- A message from its start line on. -/
def messageToks (line : List HTok) (hs : List HeaderLine) (f : Framing) : List HTok :=
  let ts := line ++ headerToks hs (onLast [.mark .onHeadersComplete] (plain crlf)) ++ f.toks
  if f.selfDelimiting then onLast [.mark .onMessageComplete] ts else ts

def Request.lineToks (r : Request) : List HTok :=
  plain (r.method ++ [32]) ++ onFirst [.start .onUrl] (plain r.target) ++
    onFirst [.stop] (plain (32 :: versionText r.version.minor ++ crlf))

def Request.toks (r : Request) : List HTok := messageToks r.lineToks r.headers r.framing

/-- The three digits of a status code. -/
def codeDigits (code : Nat) : List UInt8 :=
  [UInt8.ofNat (48 + code / 100), UInt8.ofNat (48 + code / 10 % 10), UInt8.ofNat (48 + code % 10)]

/-- A status line. -/
def statusToks (minor code : Nat) (reason : Option (List UInt8)) : List HTok :=
  plain (versionText minor ++ 32 :: codeDigits code) ++
    match reason with
    | none => plain crlf
    | some reason =>
      if reason = [] then plain [32] ++ onFirst [.start (.onStatus code), .stop] (plain crlf)
      else plain [32] ++ onFirst [.start (.onStatus code)] (plain reason) ++
        onFirst [.stop] (plain crlf)

def Response.lineToks (r : Response) : List HTok := statusToks r.version.minor r.code r.reason

def Response.toks (r : Response) : List HTok := messageToks r.lineToks r.headers r.framing

private theorem opensOnBytes_headerToks (hs : List HeaderLine) {rest : List HTok}
    (h : OpensOnBytes rest) : OpensOnBytes (headerToks hs rest) := by
  induction hs with
  | nil => exact h
  | cons x hs ih =>
    have hname := (opensOnBytes_plain (E := DataCb) (M := Cb) x.name).onFirst
      [.start .onHeaderField]
    have hcolon := (opensOnBytes_plain (E := DataCb) (M := Cb) (58 :: x.ows)).onFirst [.stop]
    have hcrlf := opensOnBytes_plain (E := DataCb) (M := Cb) crlf
    rw [headerToks]
    refine (hname.append hcolon).append ?_
    split
    · exact hcrlf.append (ih.onFirst _)
    · exact (((opensOnBytes_plain x.text).onFirst _).append (hcrlf.onFirst _)).append ih

private theorem opensOnBytes_dataToks (data : List UInt8) : OpensOnBytes (dataToks data) :=
  ((opensOnBytes_plain data).onFirst _).onLast (by simp)

private theorem opensOnBytes_framing (f : Framing) : OpensOnBytes f.toks := by
  cases f with
  | none | suppressed => intro t ht; simp [Framing.toks] at ht
  | fixed body => exact opensOnBytes_dataToks body
  | chunked chunks last ts =>
    refine OpensOnBytes.append (OpensOnBytes.append ?_ (opensOnBytes_plain _))
      (opensOnBytes_headerToks ts (opensOnBytes_plain crlf))
    intro t ht
    obtain ⟨c, -, hc⟩ := List.mem_flatMap.mp ht
    exact (((opensOnBytes_plain _).append (opensOnBytes_dataToks c.data)).append
      (opensOnBytes_plain crlf)) t hc
  | untilEof body => exact (opensOnBytes_plain body).onFirst _

theorem opensOnBytes_messageToks {line : List HTok} (h : OpensOnBytes line)
    (hs : List HeaderLine) (f : Framing) : OpensOnBytes (messageToks line hs f) := by
  have hend : OpensOnBytes (onLast [.mark .onHeadersComplete] (plain crlf : List HTok)) :=
    (opensOnBytes_plain crlf).onLast (by simp)
  have hall := (h.append (opensOnBytes_headerToks hs hend)).append (opensOnBytes_framing f)
  simp only [messageToks]
  split
  · exact hall.onLast (by simp)
  · exact hall

theorem opensOnBytes_requestLine (r : Request) : OpensOnBytes r.lineToks :=
  ((opensOnBytes_plain _).append ((opensOnBytes_plain _).onFirst _)).append
    ((opensOnBytes_plain _).onFirst _)

theorem opensOnBytes_statusToks (minor code : Nat) (reason : Option (List UInt8)) :
    OpensOnBytes (statusToks minor code reason) := by
  refine (opensOnBytes_plain _).append ?_
  split
  · exact opensOnBytes_plain crlf
  · split
    · exact (opensOnBytes_plain _).append ((opensOnBytes_plain crlf).onFirst _)
    · exact ((opensOnBytes_plain _).append ((opensOnBytes_plain _).onFirst _)).append
        ((opensOnBytes_plain crlf).onFirst _)

/-! ## The header section -/

/-- The operations of one header line, with the report of an empty value behind the line. -/
def headerOps (h : HeaderLine) : List HOp :=
  .start .onHeaderField :: h.name.map .byte ++ [.stop] ++ ((58 :: h.ows).map .byte ++
    if h.text = [] then crlf.map .byte ++ [.start .onHeaderValue, .stop]
    else (.start .onHeaderValue :: h.text.map .byte ++ [.stop]) ++ crlf.map .byte)

/-- The callbacks of one header line. -/
def headerEvents (h : HeaderLine) : List Callback :=
  [.span .onHeaderField h.name, .span .onHeaderValue h.text]

theorem headerToks_ne_nil (hs : List HeaderLine) {rest : List HTok} (h : rest ≠ []) :
    headerToks hs rest ≠ [] := by
  cases hs with
  | nil => exact h
  | cons x hs => simp [headerToks, onFirst, plain]

theorem opsOf_headerToks (hs : List HeaderLine) {rest : List HTok} (h : rest ≠ []) :
    opsOf (headerToks hs rest) = hs.flatMap headerOps ++ opsOf rest := by
  induction hs with
  | nil => rfl
  | cons x hs ih =>
    have hname := opsOf_onFirst [.start .onHeaderField]
      (plain_ne_nil (E := DataCb) (M := Cb) x.name_ne_nil)
    by_cases hv : x.text = []
    · simp [headerToks, hv, hname, opsOf_onFirst, headerToks_ne_nil hs h, ih, headerOps,
        plain_ne_nil, List.flatMap_cons]
    · simp [headerToks, hv, hname, opsOf_onFirst, ih, headerOps, plain_ne_nil, crlf,
        List.flatMap_cons]

theorem closed_headerOps (h : HeaderLine) :
    scan none (headerOps h) = (none, headerEvents h) := by
  have hname := closed_elem (M := Cb) DataCb.onHeaderField h.name
  have hcolon := closed_bytes (E := DataCb) (M := Cb) (58 :: h.ows)
  have hcrlf := closed_bytes (E := DataCb) (M := Cb) crlf
  have hvalue := closed_elem (M := Cb) DataCb.onHeaderValue h.text
  rw [headerOps]
  by_cases hv : h.text = []
  · have hempty := closed_elem (M := Cb) DataCb.onHeaderValue []
    rw [if_pos hv, headerEvents, hv]
    exact closed_append hname (closed_append hcolon (closed_append hcrlf hempty))
  · rw [if_neg hv]
    exact closed_append hname (closed_append hcolon (closed_append hvalue hcrlf))

/-- The header section: start line, header lines, empty line. -/
def headOps (line : List HTok) (hs : List HeaderLine) : List HOp :=
  opsOf line ++ hs.flatMap headerOps ++ crlf.map .byte ++ [.mark .onHeadersComplete]

/-- What follows the header section. -/
def tailOps (f : Framing) : List HOp :=
  opsOf f.toks ++ if f.selfDelimiting then [.mark .onMessageComplete] else []

/-- A message is its header section and its tail. -/
theorem opsOf_messageToks (line : List HTok) (hs : List HeaderLine) (f : Framing) :
    opsOf (messageToks line hs f) = headOps line hs ++ tailOps f := by
  have hend : onLast [.mark .onHeadersComplete] (plain crlf : List HTok) ≠ [] := by
    simp [onLast, plain, crlf]
  have hhead : headerToks hs (onLast [.mark .onHeadersComplete] (plain crlf : List HTok)) ≠ [] :=
    headerToks_ne_nil hs hend
  have hcrlf : (plain crlf : List HTok) ≠ [] := by simp [plain, crlf]
  simp only [messageToks, headOps, tailOps]
  split
  · rw [opsOf_onLast _ (by simp [hhead]), opsOf_append, opsOf_append, opsOf_headerToks hs hend,
      opsOf_onLast _ hcrlf, opsOf_plain]
    simp only [List.append_assoc]
  · rw [opsOf_append, opsOf_append, opsOf_headerToks hs hend, opsOf_onLast _ hcrlf, opsOf_plain]
    simp only [List.append_assoc, List.append_nil]

/-- Uncut, the header section gives the start line's callbacks, two for each line and
    `on_headers_complete`. -/
theorem closed_headOps {line : List HTok} {evs : List Callback}
    (hline : scan none (opsOf line) = (none, evs)) (hs : List HeaderLine) :
    scan none (headOps line hs) =
      (none, evs ++ hs.flatMap headerEvents ++ [.mark .onHeadersComplete]) := by
  have hlines := closed_flatMap (f := headerOps) hs fun h _ => closed_headerOps h
  have hcrlf := closed_bytes (E := DataCb) (M := Cb) crlf
  have hmark : scan (E := DataCb) none [.mark Cb.onHeadersComplete] =
      (none, [.mark .onHeadersComplete]) := rfl
  have hall := closed_append (closed_append (closed_append hline hlines) hcrlf) hmark
  simpa [headOps] using hall

/-- The request line reports the target. -/
theorem closed_requestLine (r : Request) :
    scan none (opsOf r.lineToks) = (none, [.span .onUrl r.target]) := by
  have hmethod := closed_bytes (E := DataCb) (M := Cb) (r.method ++ [32])
  have htarget := closed_elem (M := Cb) DataCb.onUrl r.target
  have hversion := closed_bytes (E := DataCb) (M := Cb) (32 :: versionText r.version.minor ++ crlf)
  have hall := closed_append (closed_append hmethod htarget) hversion
  have hne : (plain (32 :: versionText r.version.minor ++ crlf) : List HTok) ≠ [] :=
    plain_ne_nil (by simp)
  rw [Request.lineToks, opsOf_append, opsOf_append, opsOf_onFirst _ hne,
    opsOf_onFirst _ (plain_ne_nil r.target_ne_nil), opsOf_plain, opsOf_plain, opsOf_plain]
  simpa using hall

/-- The status line reports the reason phrase, if there is room for one. -/
theorem closed_statusToks (minor code : Nat) (reason : Option (List UInt8)) :
    scan none (opsOf (statusToks minor code reason)) =
      (none, (reason.map fun reason => .span (.onStatus code) reason).toList) := by
  have hcode := closed_bytes (E := DataCb) (M := Cb) (versionText minor ++ 32 :: codeDigits code)
  have hcrlf := closed_bytes (E := DataCb) (M := Cb) crlf
  have hsp := closed_bytes (E := DataCb) (M := Cb) [32]
  have hne : (plain crlf : List HTok) ≠ [] := by simp [plain, crlf]
  unfold statusToks
  rw [opsOf_append, opsOf_plain]
  cases reason with
  | none => simpa using closed_append hcode hcrlf
  | some reason =>
    have helem := closed_elem (M := Cb) (DataCb.onStatus code) reason
    have hall := closed_append hcode (closed_append hsp (closed_append helem hcrlf))
    by_cases hnil : reason = []
    · subst hnil
      simpa [opsOf_onFirst _ hne] using hall
    · simpa [hnil, opsOf_onFirst _ hne, opsOf_onFirst _ (plain_ne_nil hnil)] using hall

/-! ## Body and trailers -/

theorem opsOf_dataToks {data : List UInt8} (h : data ≠ []) :
    opsOf (dataToks data) = .start .onBody :: data.map .byte ++ [.stop] := by
  have hplain : (plain data : List HTok) ≠ [] := plain_ne_nil h
  rw [dataToks, opsOf_onLast _ (onFirst_ne_nil hplain), opsOf_onFirst _ hplain, opsOf_plain]
  rfl

/-- The chunks of a chunked body, up to the line of the last chunk. -/
def chunkOps (chunks : List Chunk) (last : LastChunk) : List HOp :=
  opsOf (chunks.flatMap chunkToks) ++ last.bytes.map .byte

private theorem opsOf_toks_chunked (chunks : List Chunk) (last : LastChunk) (ts : List HeaderLine) :
    opsOf (Framing.chunked chunks last ts).toks =
      chunkOps chunks last ++ ts.flatMap headerOps ++ crlf.map .byte := by
  have hcrlf : (plain crlf : List HTok) ≠ [] := by simp [plain, crlf]
  rw [Framing.toks, opsOf_append, opsOf_append, opsOf_headerToks ts hcrlf, opsOf_plain,
    opsOf_plain, chunkOps]
  simp only [List.append_assoc]

/-- The callbacks of a chunked body. -/
def chunkEvents (chunks : List Chunk) : List Callback := chunks.map fun c => .span .onBody c.data

theorem closed_chunkOps (chunks : List Chunk) (last : LastChunk) :
    scan none (chunkOps chunks last) = (none, chunkEvents chunks) := by
  have hchunk : ∀ c ∈ chunks, scan none (opsOf (chunkToks c)) =
      (none, [.span .onBody c.data]) := by
    intro c _
    have hsize := closed_bytes (E := DataCb) (M := Cb) c.bytes
    have hdata := closed_elem (M := Cb) DataCb.onBody c.data
    have hall := closed_append (closed_append hsize hdata) (closed_bytes crlf)
    simpa [chunkToks, opsOf_dataToks c.data_ne_nil] using hall
  have hchunks := closed_flatMap chunks hchunk
  have hlast := closed_bytes (E := DataCb) (M := Cb) last.bytes
  rw [chunkOps, opsOf_flatMap, closed_append hchunks hlast]
  simp [chunkEvents, List.map_eq_flatMap]

/-- What can follow the header section: fields, values and body data. -/
def IsTailOp : HOp → Prop
  | .start e => e = .onHeaderField ∨ e = .onHeaderValue ∨ e = .onBody
  | .mark _ => False
  | .byte _ => True
  | .stop => True

private theorem isTailOp_bytes {bs : List UInt8} {x : HOp} (h : x ∈ bs.map Op.byte) :
    IsTailOp x := by
  obtain ⟨b, -, rfl⟩ := List.mem_map.mp h
  trivial

private theorem isTailOp_dataToks {d : List UInt8} {x : HOp} (h : x ∈ opsOf (dataToks d)) :
    IsTailOp x := by
  by_cases hnil : d = []
  · simp [hnil, dataToks, plain, onFirst, onLast] at h
  · rw [opsOf_dataToks hnil] at h
    simp only [List.cons_append, List.mem_cons, List.mem_append, List.not_mem_nil, or_false] at h
    rcases h with rfl | h | rfl
    · exact .inr (.inr rfl)
    · exact isTailOp_bytes h
    · trivial

private theorem isTailOp_headerOps {h : HeaderLine} {x : HOp} (hx : x ∈ headerOps h) :
    IsTailOp x := by
  simp only [headerOps, List.mem_append, List.mem_cons, List.not_mem_nil, or_false] at hx
  rcases hx with ((rfl | hx) | rfl) | hx | hx
  · exact .inl rfl
  · exact isTailOp_bytes hx
  · trivial
  · exact isTailOp_bytes hx
  · split at hx <;> simp only [List.mem_append, List.mem_cons, List.not_mem_nil, or_false] at hx
    · rcases hx with hx | rfl | rfl
      · exact isTailOp_bytes hx
      · exact .inr (.inl rfl)
      · trivial
    · rcases hx with ((rfl | hx) | rfl) | hx
      · exact .inr (.inl rfl)
      · exact isTailOp_bytes hx
      · trivial
      · exact isTailOp_bytes hx

private theorem isTailOp_toks {f : Framing} {x : HOp} (h : x ∈ opsOf f.toks) : IsTailOp x := by
  cases f with
  | none | suppressed => simp [Framing.toks] at h
  | fixed body => exact isTailOp_dataToks h
  | chunked chunks last ts =>
    rw [opsOf_toks_chunked, chunkOps, opsOf_flatMap] at h
    simp only [List.mem_append, List.mem_flatMap, chunkToks, opsOf_append, opsOf_plain] at h
    rcases h with ((⟨c, -, (hc | hc) | hc⟩ | h) | ⟨y, -, hy⟩) | h
    · exact isTailOp_bytes hc
    · exact isTailOp_dataToks hc
    · exact isTailOp_bytes hc
    · exact isTailOp_bytes h
    · exact isTailOp_headerOps hy
    · exact isTailOp_bytes h
  | untilEof body =>
    by_cases hnil : body = []
    · simp [hnil, Framing.toks, plain, onFirst] at h
    · rw [Framing.toks, opsOf_onFirst _ (plain_ne_nil hnil), opsOf_plain] at h
      rcases List.mem_append.mp h with h | h
      · obtain rfl := List.mem_singleton.mp h
        exact .inr (.inr rfl)
      · exact isTailOp_bytes h

theorem mark_not_mem_toks (f : Framing) (m : Cb) : .mark m ∉ opsOf f.toks :=
  fun h => isTailOp_toks h

theorem start_mem_tailOps {f : Framing} {e : DataCb} (h : .start e ∈ tailOps f) :
    e = .onHeaderField ∨ e = .onHeaderValue ∨ e = .onBody := by
  rcases List.mem_append.mp h with h | h
  · exact isTailOp_toks h
  · split at h <;> simp at h

theorem headersComplete_not_mem_tailOps (f : Framing) : .mark .onHeadersComplete ∉ tailOps f := by
  intro h
  rcases List.mem_append.mp h with h | h
  · exact mark_not_mem_toks f _ h
  · split at h <;> simp at h

/-- The data delivered behind the header section is the body. -/
theorem collect_tailOps (f : Framing) : collect .onBody (deliver none (tailOps f)) = f.body := by
  have hend : ∀ l : List HOp, ∀ evs, scan none l = (none, evs) →
      deliver none (l ++ [.mark .onMessageComplete]) = evs ++ [.mark .onMessageComplete] :=
    fun l evs h => deliver_append_of_closed h _
  cases f with
  | none => rfl
  | suppressed => rfl
  | fixed body =>
    by_cases hnil : body = []
    · subst hnil; rfl
    · have hbody := closed_elem (M := Cb) DataCb.onBody body
      rw [← opsOf_dataToks hnil] at hbody
      simp only [tailOps, Framing.toks, Framing.selfDelimiting, if_true, hend _ _ hbody]
      simp [collect, Event.dataFor, Framing.body]
  | chunked chunks last ts =>
    have hall := closed_append (closed_append (closed_chunkOps chunks last)
      (closed_flatMap ts fun h _ => closed_headerOps h)) (closed_bytes crlf)
    rw [← opsOf_toks_chunked] at hall
    simp only [tailOps, Framing.selfDelimiting, if_true, hend _ _ hall]
    simp [collect, Event.dataFor, Framing.body, chunkEvents, headerEvents, List.flatMap_assoc,
      List.flatMap_map]
  -- the body is still open at the end of the stream, and was delivered piece by piece
  | untilEof body =>
    by_cases hnil : body = []
    · subst hnil; rfl
    · simp [tailOps, Framing.toks, Framing.selfDelimiting, opsOf_onFirst _ (plain_ne_nil hnil),
        deliver, scan, step, scan_bytes, pending, collect, Event.dataFor, Framing.body]

private theorem starts_bytes (e : DataCb) (bs : List UInt8) :
    starts e (bs.map Op.byte : List HOp) = 0 :=
  starts_eq_zero (by simp)

private theorem starts_dataToks (d : List UInt8) :
    starts .onHeaderField (opsOf (dataToks d)) = 0 := by
  by_cases hnil : d = []
  · simp [hnil, dataToks, plain, onFirst, onLast, starts]
  · exact starts_eq_zero (by simp [opsOf_dataToks hnil])

theorem starts_headerOps (h : HeaderLine) : starts .onHeaderField (headerOps h) = 1 := by
  have hname := starts_bytes .onHeaderField h.name
  have hvalue := starts_bytes .onHeaderField h.text
  have hows := starts_bytes .onHeaderField h.ows
  simp only [starts] at hname hvalue hows
  by_cases hv : h.text = []
  · simp [headerOps, hv, starts, crlf, hname, hows]
  · simp [headerOps, hv, starts, crlf, hname, hvalue, hows]

private theorem starts_chunkOps (chunks : List Chunk) (last : LastChunk) :
    starts .onHeaderField (chunkOps chunks last) = 0 := by
  apply starts_eq_zero
  intro h
  rw [chunkOps, opsOf_flatMap] at h
  simp only [List.mem_append, List.mem_flatMap, chunkToks, opsOf_append, opsOf_plain,
    List.mem_map, reduceCtorEq, and_false, exists_false, or_false, false_or] at h
  obtain ⟨c, -, hc⟩ := h
  simp [opsOf_dataToks c.data_ne_nil] at hc

/-- How the tail starts once a second trailer is open: body data, one whole trailer, and the field
    name of the next one. -/
theorem tailOps_second_trailer {f : Framing} {q : List HOp} (hq : q <+: tailOps f)
    (htwo : 2 ≤ starts .onHeaderField q) :
    ∃ chunks last t rest,
      q = chunkOps chunks last ++ headerOps t ++ .start .onHeaderField :: rest := by
  have hle := starts_le_of_isPrefix (e := DataCb.onHeaderField) hq
  have hmark : starts .onHeaderField
      (if f.selfDelimiting then [.mark .onMessageComplete] else [] : List HOp) = 0 := by
    split <;> rfl
  rw [tailOps, starts_append, hmark] at hle
  cases f with
  | none =>
    have hzero : starts .onHeaderField (opsOf Framing.none.toks) = 0 := rfl
    omega
  | fixed body => rw [Framing.toks, starts_dataToks] at hle; omega
  | suppressed =>
    have hzero : starts .onHeaderField (opsOf Framing.suppressed.toks) = 0 := rfl
    omega
  | untilEof body =>
    have hzero : starts .onHeaderField (opsOf (Framing.untilEof body).toks) = 0 := by
      by_cases hnil : body = []
      · simp [hnil, Framing.toks, plain, onFirst, starts]
      · exact starts_eq_zero (by simp [Framing.toks, opsOf_onFirst _ (plain_ne_nil hnil)])
    omega
  | chunked chunks last ts =>
    rw [opsOf_toks_chunked, starts_append, starts_append, starts_chunkOps, starts_bytes] at hle
    rcases ts with _ | ⟨t, _ | ⟨t', ts⟩⟩
    · have hzero : starts .onHeaderField ([].flatMap headerOps) = 0 := rfl
      omega
    · have hone : starts .onHeaderField ([t].flatMap headerOps) = 1 := by
        simp [starts_headerOps]
      omega
    · -- the second trailer's first operation opens its name
      obtain ⟨l, hl⟩ : ∃ l, headerOps t' = .start .onHeaderField :: l := ⟨_, rfl⟩
      have hsplit : tailOps (.chunked chunks last (t :: t' :: ts)) =
          (chunkOps chunks last ++ headerOps t) ++ .start .onHeaderField ::
            (l ++ ts.flatMap headerOps ++ crlf.map .byte ++ [.mark .onMessageComplete]) := by
        simp [tailOps, opsOf_toks_chunked, Framing.selfDelimiting, hl]
      rw [hsplit] at hq
      obtain ⟨rest, hrest⟩ := prefix_of_starts_lt (e := DataCb.onHeaderField) hq (by
        rw [starts_append, starts_chunkOps, starts_headerOps]
        omega)
      exact ⟨chunks, last, t, rest, by rw [← hrest]; simp⟩

end Ppnt.Spec
