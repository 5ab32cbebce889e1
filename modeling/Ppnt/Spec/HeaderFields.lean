import Ppnt.ForStd.KeyedList
import Ppnt.Native.HeaderList

/-!
# A header list is a map of fields

`FieldMap` is what a header list is for: for each field, named in any case, its values in the order
in which they were added.
-/

namespace Ppnt.Spec

open Ppnt.Native KeyedList

/-- For each name in lower case, the values of the field. -/
abbrev FieldMap := List UInt8 → List (List UInt8)

/-- What the operations are for. -/
def FieldMap.apply (fields : FieldMap) : HeaderOp → FieldMap
  | .add name value =>
    Function.update fields (toLowerAsciiStr name) (fields (toLowerAsciiStr name) ++ [value])
  | .set name value => Function.update fields (toLowerAsciiStr name) [value]
  | .clear => fun _ => []

/-- The key of a header field. -/
def fieldKey (h : HttpHeader) : List UInt8 := toLowerAsciiStr h.name

/-- The map that a header list stands for. -/
def fieldMap (headers : List HttpHeader) : FieldMap := values fieldKey HttpHeader.value headers

private theorem fieldMap_headerAdd (headers : List HttpHeader) (name value : List UInt8) :
    fieldMap (headerAdd headers name value) = (fieldMap headers).apply (.add name value) :=
  values_append_singleton fieldKey HttpHeader.value headers ⟨name, value⟩

/-- `set` replaces the lines of the field by one. -/
private theorem headerSet_eq_replace (headers : List HttpHeader) (name value : List UInt8) :
    headerSet headers name value = replace fieldKey headers ⟨name, value⟩ := by
  have hother : ∀ h : HttpHeader, (!ignoreCaseEqual h.name name) =
    decide (fieldKey h ≠ toLowerAsciiStr name) :=
    fun h => (decide_not ..).symm
  simp only [headerSet, headerAdd, replace, hother]
  rfl

/-- Each operation on a list is one on the map. -/
theorem fieldMap_apply (headers : List HttpHeader) (op : HeaderOp) :
    fieldMap (op.apply headers) = (fieldMap headers).apply op := by
  cases op with
  | add name value => exact fieldMap_headerAdd headers name value
  | set name value =>
    rw [HeaderOp.apply, headerSet_eq_replace]
    exact values_replace fieldKey HttpHeader.value headers ⟨name, value⟩
  | clear => exact values_nil fieldKey HttpHeader.value

/-- Any operations, one after the other. -/
private theorem fieldMap_foldl (ops : List HeaderOp) (headers : List HttpHeader) :
    fieldMap (ops.foldl HeaderOp.apply headers) = ops.foldl FieldMap.apply (fieldMap headers) := by
  induction ops generalizing headers with
  | nil => rfl
  | cons op ops ih => rw [List.foldl_cons, List.foldl_cons, ih, fieldMap_apply]

private theorem headerGet_eq (headers : List HttpHeader) (name : List UInt8) :
    headerGet headers name = (fieldMap headers (toLowerAsciiStr name)).head? :=
  find?_eq_head? fieldKey HttpHeader.value headers (toLowerAsciiStr name)

/-- Lists that `==` takes for equal have the same fields. -/
private theorem fieldMap_of_headersEqual {headers headers' : List HttpHeader}
    (h : headersEqual headers headers' = true) : fieldMap headers = fieldMap headers' := by
  induction headers generalizing headers' with
  | nil =>
    cases headers' with
    | nil => rfl
    | cons _ _ => cases h
  | cons a headers ih =>
    cases headers' with
    | nil => cases h
    | cons b headers' =>
      simp only [headersEqual, List.isEqv, Bool.and_eq_true, HttpHeader.equal, decide_eq_true_eq,
        ignoreCaseEqual] at h
      obtain ⟨⟨hname, hvalue⟩, hrest⟩ := h
      have hkey : fieldKey a = fieldKey b := hname
      have hmap := congrFun (ih hrest)
      funext k
      have hk := hmap k
      simp only [fieldMap, values, List.filter_cons, hkey] at hk ⊢
      split
      · rw [List.map_cons, List.map_cons, hk, hvalue]
      · exact hk

example : headerGet ([.add (ascii "Accept") (ascii "a"), .add (ascii "ACCEPT") (ascii "b"),
    .set (ascii "accept") (ascii "c")].foldl HeaderOp.apply []) (ascii "Accept") =
    some (ascii "c") := by
  decide

end Ppnt.Spec
