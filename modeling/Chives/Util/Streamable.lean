import Chives.Util.StructStream

set_option autoImplicit false

/-!
# The Streamable format

`util/streamable.py` builds, for each field type of a Streamable class, a stream function and a
parse function, by two dispatchers that test the type in different orders. This file models the
type grammar, both dispatchers branch by branch, the leaf functions they select, and
`from_bytes` and `__bytes__` of a class; it proves that the format is a bijective codec.

## Main definitions

* `FieldType`, `ItemType` — the types a field can have.
* `PyValue` — the values of fields.
* `ExternalTypes` — what is assumed of types parsed by external code.
* `Streamable.dispatchParse`, `Streamable.dispatchStream` — the two dispatchers,
  with their branches in the order of the source.
* `Streamable.fromBytes`, `Streamable.toBytes` — the two methods of a class.

## Main results

* `Streamable.lawful_field` — by induction over the grammar, the functions selected for a
  type form a lawful prefix codec of its values.
* `Streamable.streamable_bijective` — the two round trips of `from_bytes` and `__bytes__`.

## Design

`Optional[Optional[T]]` is `Optional[T]` in Python, so the argument of `Optional` is an
`ItemType`, which is never optional itself.
-/

namespace Chives

open PrefixCodec ExceptRun

/-! ## Types and values -/

mutual

/-- The declared type of a field. -/
inductive FieldType (κ : Type) : Type
  | item (t : ItemType κ)
  | optional (t : ItemType κ)

/-- A field type that is not an `Optional`. `program` is a type with its own `parse` and
`stream` (a CLVM program), `element` one with a size hint, `from_bytes` and `__bytes__` (a BLS
element). -/
inductive ItemType (κ : Type) : Type
  | int (c : SizedInt)
  | bool
  | sizedBytes (size : ℕ)
  | bytes
  | str
  | list (t : FieldType κ)
  | tuple (ts : List (FieldType κ))
  | streamable (cls : String) (fields : List (FieldType κ))
  | program (k : κ)
  | element (k : κ)

end

/-- The value of a field. An object of a Streamable class is its class name with the values of
its fields in the order of declaration. -/
inductive PyValue (ξ : Type) : Type
  | none
  | int (n : ℤ)
  | bool (b : Bool)
  | bytes (b : Bytes)
  | str (s : List CodePoint)
  | list (vs : List (PyValue ξ))
  | tuple (vs : List (PyValue ξ))
  | obj (cls : String) (vs : List (PyValue ξ))
  | ext (x : ξ)

/-- The external types `κ` with values `ξ`, and the laws they are assumed to satisfy: the `parse`
and `stream` of a program form a lawful codec, and the `from_bytes` and `__bytes__` of an element
are inverse to each other at the element's size. -/
structure ExternalTypes (κ ξ : Type) where
  programParse : κ → Decoder PyError ξ UInt8
  programStream : κ → Encoder PyError ξ UInt8
  isProgram : κ → ξ → Prop
  program_lawful : ∀ k, Lawful (isProgram k) (programStream k) (programParse k)
  sizeHint : κ → ℕ
  elementFromBytes : κ → Bytes → Except PyError ξ
  elementToBytes : κ → ξ → Bytes
  isElement : κ → ξ → Prop
  element_length : ∀ k x, isElement k x → (elementToBytes k x).length = sizeHint k
  element_from_to : ∀ k x, isElement k x → elementFromBytes k (elementToBytes k x) = .ok x
  element_to_from : ∀ k b x, b.length = sizeHint k → elementFromBytes k b = .ok x →
    isElement k x ∧ elementToBytes k x = b

variable {κ ξ : Type}

/-! ## Typing -/

mutual

/-- `v` is a value of the field type `t` whose lengths fit in `uint32`; every string in it
satisfies `strOk`. -/
def FieldType.HasType (E : ExternalTypes κ ξ) (strOk : List CodePoint → Prop) :
    FieldType κ → PyValue ξ → Prop
  | .optional t, v => v = .none ∨ ItemType.HasType E strOk t v
  | .item t, v => ItemType.HasType E strOk t v

/-- `v` is a value of the item type `t` whose lengths fit in `uint32`; every string in it
satisfies `strOk`. The length of a string is that of its UTF-8 encoding. -/
def ItemType.HasType (E : ExternalTypes κ ξ) (strOk : List CodePoint → Prop) :
    ItemType κ → PyValue ξ → Prop
  | .int c, v => ∃ n, v = .int n ∧ c.InRange n
  | .bool, v => ∃ b, v = .bool b
  | .sizedBytes size, v => ∃ b, v = .bytes b ∧ b.length = size
  | .bytes, v => ∃ b, v = .bytes b ∧ b.length < 2 ^ 32
  | .str, v => ∃ s, v = .str s ∧ strOk s ∧ ∀ b, strEncode s = .ok b → b.length < 2 ^ 32
  | .list t, v => ∃ vs, v = .list vs ∧ vs.length < 2 ^ 32 ∧ ∀ w ∈ vs, FieldType.HasType E strOk t w
  | .tuple ts, v => ∃ vs, v = .tuple vs ∧ FieldType.HaveTypes E strOk ts vs
  | .streamable cls ts, v => ∃ vs, v = .obj cls vs ∧ FieldType.HaveTypes E strOk ts vs
  | .program k, v => ∃ x, v = .ext x ∧ E.isProgram k x
  | .element k, v => ∃ x, v = .ext x ∧ E.isElement k x

/-- The values have the types, position by position. -/
def FieldType.HaveTypes (E : ExternalTypes κ ξ) (strOk : List CodePoint → Prop) :
    List (FieldType κ) → List (PyValue ξ) → Prop
  | [], vs => vs = []
  | t :: ts, vs => ∃ w ws, vs = w :: ws ∧ FieldType.HasType E strOk t w ∧
      FieldType.HaveTypes E strOk ts ws

end

/-- A parse function: it reads a value from the front of the stream. -/
abbrev ParseFunction (ξ : Type) := Decoder PyError (PyValue ξ) UInt8

/-- A stream function: the bytes it writes for a value. -/
abbrev StreamFunction (ξ : Type) := Encoder PyError (PyValue ξ) UInt8

namespace Streamable

/-! ## The leaf functions -/

/-- `parse_bool`. -/
def parseBool : ParseFunction ξ := fun f => do
  let (boolByte, f) := read 1 f
  if boolByte.length ≠ 1 then throw .assertionError
  else if boolByte = [0] then return (.bool false, f)
  else if boolByte = [1] then return (.bool true, f)
  else throw .valueError

/-- `stream_bool`: `int(item).to_bytes(1, "big")`. -/
def streamBool : StreamFunction ξ
  | .bool b => .ok [if b then 1 else 0]
  | .int n => if 0 ≤ n ∧ n < 256 then .ok [UInt8.ofNat n.toNat] else .error .overflowError
  | _ => .error .typeError

/-- `parse_uint32`. -/
def parseUint32 : Decoder PyError ℕ UInt8 := fun f =>
  let (sizeBytes, f) := read 4 f
  if sizeBytes.length ≠ 4 then .error .assertionError else .ok (BigEndian.ofBytes sizeBytes, f)

/-- `write_uint32(f, uint32(value))`: the constructor rejects what does not fit. -/
def writeUint32 (value : ℕ) : Except PyError Bytes :=
  if value < 2 ^ 32 then .ok (BigEndian.toBytes 4 value) else .error .valueError

/-- `parse_optional`. -/
def parseOptional (parseInner : ParseFunction ξ) : ParseFunction ξ := fun f => do
  let (isPresent, f) := read 1 f
  if isPresent.length ≠ 1 then throw .assertionError
  else if isPresent = [0] then return (.none, f)
  else if isPresent = [1] then parseInner f
  else throw .valueError

/-- `stream_optional`. -/
def streamOptional (streamInner : StreamFunction ξ) : StreamFunction ξ
  | .none => .ok [0]
  | item => do
    let w ← streamInner item
    return 1 :: w

/-- The length-prefixed read shared by `parse_bytes` and `parse_str`. -/
def parseCounted : Decoder PyError Bytes UInt8 := fun f => do
  let (size, f) ← parseUint32 f
  let (bytesRead, f) := read size f
  if bytesRead.length ≠ size then throw .assertionError else return (bytesRead, f)

/-- `write_uint32` of the length followed by the bytes themselves. -/
def streamCounted (b : Bytes) : Except PyError Bytes := do
  let size ← writeUint32 b.length
  return size ++ b

/-- `parse_bytes`. -/
def parseBytes : ParseFunction ξ := fun f => do
  let (b, f) ← parseCounted f
  return (.bytes b, f)

/-- `stream_bytes`. -/
def streamBytes : StreamFunction ξ
  | .bytes b => streamCounted b
  | _ => .error .typeError

/-- `parse_str`. -/
def parseStr : ParseFunction ξ := fun f => do
  let (b, f) ← parseCounted f
  let s ← strDecode b
  return (.str s, f)

/-- `stream_str`. -/
def streamStr : StreamFunction ξ
  | .str s => do
    let b ← strEncode s
    streamCounted b
  | _ => .error .typeError

/-- `parse_list`. -/
def parseList (parseInner : ParseFunction ξ) : ParseFunction ξ := fun f => do
  let (listSize, f) ← parseUint32 f
  let (vs, f) ← decMany parseInner listSize f
  return (.list vs, f)

/-- `stream_list`. -/
def streamList (streamInner : StreamFunction ξ) : StreamFunction ξ
  | .list vs => do
    let size ← writeUint32 vs.length
    let ws ← encMany streamInner vs
    return size ++ ws
  | _ => .error .typeError

/-- `parse_tuple`. -/
def parseTuple (parseInners : List (ParseFunction ξ)) : ParseFunction ξ := fun f => do
  let (vs, f) ← decEach parseInners f
  return (.tuple vs, f)

/-- `stream_tuple`. -/
def streamTuple (streamInners : List (StreamFunction ξ)) : StreamFunction ξ
  | .tuple vs =>
    if streamInners.length ≠ vs.length then .error .assertionError else encEach streamInners vs
  | _ => .error .typeError

/-- `parse_size_hints`. -/
def parseSizeHints (fromBytes : Bytes → Except PyError ξ) (bytesToRead : ℕ) : ParseFunction ξ :=
  fun f => do
    let (bytesRead, f) := read bytesToRead f
    if bytesRead.length ≠ bytesToRead then throw .assertionError
    else do
      let x ← fromBytes bytesRead
      return (.ext x, f)

/-- `SizedBytes.parse`. -/
def parseSizedBytes (size : ℕ) : ParseFunction ξ := fun f =>
  let (b, f) := read size f
  if b.length ≠ size then .error .valueError else .ok (.bytes b, f)

/-! ## The dispatchers -/

/-- The attribute tests the dispatchers make on a type. -/
structure TypeTests where
  isBool : Bool := false
  isSpecificOptional : Bool := false
  isBytes : Bool := false
  hasParse : Bool := false
  hasStream : Bool := false
  hasDunderBytes : Bool := false
  isList : Bool := false
  isTuple : Bool := false
  hasSizeHint : Bool := false
  isStr : Bool := false

/-- What the tests say of each type of the grammar. The sized integers, the sized byte strings,
the Streamable classes and the programs have both `parse` and `stream`, and `__bytes__` besides;
the BLS elements have only `__bytes__` and a size hint. -/
def typeTests : FieldType κ → TypeTests
  | .optional _ => { isSpecificOptional := true }
  | .item (.int _) => { hasParse := true, hasStream := true, hasDunderBytes := true }
  | .item .bool => { isBool := true }
  | .item (.sizedBytes _) => { hasParse := true, hasStream := true }
  | .item .bytes => { isBytes := true }
  | .item .str => { isStr := true }
  | .item (.list _) => { isList := true }
  | .item (.tuple _) => { isTuple := true }
  | .item (.streamable _ _) => { hasParse := true, hasStream := true, hasDunderBytes := true }
  | .item (.program _) => { hasParse := true, hasStream := true, hasDunderBytes := true }
  | .item (.element _) => { hasDunderBytes := true, hasSizeHint := true }

/-- The `parse` class method of a type that has one; `inner` are the parse functions of the
fields, for a Streamable class. -/
def classParse (E : ExternalTypes κ ξ) (inner : List (ParseFunction ξ)) :
    FieldType κ → ParseFunction ξ
  | .item (.int c) => fun f => do
    let (n, f) ← c.parse f
    return (.int n, f)
  | .item (.sizedBytes size) => parseSizedBytes size
  | .item (.streamable cls _) => fun f => do
    let (vs, f) ← decEach inner f
    return (.obj cls vs, f)
  | .item (.program k) => fun f => do
    let (x, f) ← E.programParse k f
    return (.ext x, f)
  | _ => fun _ => .error .typeError

/-- The `stream` method of a value of a type that has one; `inner` are the stream functions of
the fields, for a Streamable class. -/
def classStream (E : ExternalTypes κ ξ) (inner : List (StreamFunction ξ)) :
    FieldType κ → StreamFunction ξ
  | .item (.int c), .int n => .ok (c.toBytes n)
  | .item (.sizedBytes _), .bytes b => .ok b
  | .item (.streamable _ _), .obj _ vs => encEach inner vs
  | .item (.program k), .ext x => E.programStream k x
  | _, _ => .error .typeError

/-- The `__bytes__` method of a value of a type without `stream`. -/
def classBytes (E : ExternalTypes κ ξ) : FieldType κ → StreamFunction ξ
  | .item (.element k), .ext x => .ok (E.elementToBytes k x)
  | _, _ => .error .typeError

/-- The size hint read of a type. -/
def classSizeHints (E : ExternalTypes κ ξ) : FieldType κ → ParseFunction ξ
  | .item (.element k) => parseSizeHints (E.elementFromBytes k) (E.sizeHint k)
  | _ => fun _ => .error .typeError

/-- `function_to_parse_one_item`, branch by branch; `inner` are the parse functions of the type's
arguments. -/
def dispatchParse (E : ExternalTypes κ ξ) (t : FieldType κ) (inner : List (ParseFunction ξ)) :
    ParseFunction ξ :=
  let first : ParseFunction ξ := inner.headD fun _ => .error .typeError
  if (typeTests t).isBool then parseBool
  else if (typeTests t).isSpecificOptional then parseOptional first
  else if (typeTests t).hasParse then classParse E inner t
  else if (typeTests t).isBytes then parseBytes
  else if (typeTests t).isList then parseList first
  else if (typeTests t).isTuple then parseTuple inner
  else if (typeTests t).hasSizeHint then classSizeHints E t
  else if (typeTests t).isStr then parseStr
  else fun _ => .error .notImplementedError

/-- `function_to_stream_one_item`, branch by branch; `inner` are the stream functions of the
type's arguments. -/
def dispatchStream (E : ExternalTypes κ ξ) (t : FieldType κ) (inner : List (StreamFunction ξ)) :
    StreamFunction ξ :=
  let first : StreamFunction ξ := inner.headD fun _ => .error .typeError
  if (typeTests t).isSpecificOptional then streamOptional first
  else if (typeTests t).isBytes then streamBytes
  else if (typeTests t).hasStream then classStream E inner t
  else if (typeTests t).hasDunderBytes then classBytes E t
  else if (typeTests t).isList then streamList first
  else if (typeTests t).isTuple then streamTuple inner
  else if (typeTests t).isStr then streamStr
  else if (typeTests t).isBool then streamBool
  else fun _ => .error .notImplementedError

mutual

/-- The parse function of a field type: `function_to_parse_one_item` with its recursive calls on
the arguments of the type. -/
def parseField (E : ExternalTypes κ ξ) : FieldType κ → ParseFunction ξ
  | .optional t => dispatchParse E (.optional t) [parseItem E t]
  | .item t => parseItem E t

/-- The parse function of an item type. -/
def parseItem (E : ExternalTypes κ ξ) : ItemType κ → ParseFunction ξ
  | .list t => dispatchParse E (.item (.list t)) [parseField E t]
  | .tuple ts => dispatchParse E (.item (.tuple ts)) (parseFields E ts)
  | .streamable cls ts => dispatchParse E (.item (.streamable cls ts)) (parseFields E ts)
  | .int c => dispatchParse E (.item (.int c)) []
  | .bool => dispatchParse E (.item .bool) []
  | .sizedBytes n => dispatchParse E (.item (.sizedBytes n)) []
  | .bytes => dispatchParse E (.item .bytes) []
  | .str => dispatchParse E (.item .str) []
  | .program k => dispatchParse E (.item (.program k)) []
  | .element k => dispatchParse E (.item (.element k)) []

/-- The parse functions of a list of types, `PARSE_FUNCTIONS_FOR_STREAMABLE_CLASS` for the fields
of a class. -/
def parseFields (E : ExternalTypes κ ξ) : List (FieldType κ) → List (ParseFunction ξ)
  | [] => []
  | t :: ts => parseField E t :: parseFields E ts

end

mutual

/-- The stream function of a field type: `function_to_stream_one_item` with its recursive calls on
the arguments of the type. -/
def streamField (E : ExternalTypes κ ξ) : FieldType κ → StreamFunction ξ
  | .optional t => dispatchStream E (.optional t) [streamItem E t]
  | .item t => streamItem E t

/-- The stream function of an item type. -/
def streamItem (E : ExternalTypes κ ξ) : ItemType κ → StreamFunction ξ
  | .list t => dispatchStream E (.item (.list t)) [streamField E t]
  | .tuple ts => dispatchStream E (.item (.tuple ts)) (streamFields E ts)
  | .streamable cls ts => dispatchStream E (.item (.streamable cls ts)) (streamFields E ts)
  | .int c => dispatchStream E (.item (.int c)) []
  | .bool => dispatchStream E (.item .bool) []
  | .sizedBytes n => dispatchStream E (.item (.sizedBytes n)) []
  | .bytes => dispatchStream E (.item .bytes) []
  | .str => dispatchStream E (.item .str) []
  | .program k => dispatchStream E (.item (.program k)) []
  | .element k => dispatchStream E (.item (.element k)) []

/-- The stream functions of a list of types, `STREAM_FUNCTIONS_FOR_STREAMABLE_CLASS` for the
fields of a class. -/
def streamFields (E : ExternalTypes κ ξ) : List (FieldType κ) → List (StreamFunction ξ)
  | [] => []
  | t :: ts => streamField E t :: streamFields E ts

end

/-- `Streamable.from_bytes` of a class with the given fields. -/
def fromBytes (E : ExternalTypes κ ξ) (cls : String) (fields : List (FieldType κ))
    (blob : Bytes) : Except PyError (PyValue ξ) :=
  decWhole (parseItem E (.streamable cls fields)) .assertionError blob

/-- `Streamable.__bytes__` of an object of a class with the given fields. -/
def toBytes (E : ExternalTypes κ ξ) (cls : String) (fields : List (FieldType κ))
    (v : PyValue ξ) : Except PyError Bytes :=
  streamItem E (.streamable cls fields) v

/-! ## The leaf codecs -/

section Leaves

lemma lawful_uint32 : Lawful (fun n : ℕ => n < 2 ^ 32) writeUint32 parseUint32 where
  dec_enc n hn := by
    refine ⟨BigEndian.toBytes 4 n, if_pos hn, fun rest => ?_⟩
    have hlt : n < 256 ^ 4 := by omega
    simp [parseUint32, read_append (BigEndian.length_toBytes 4 n) rest,
      BigEndian.ofBytes_toBytes hlt]
  enc_dec := by
    intro s n rest h
    simp only [parseUint32, guard_eq_ok, not_not, Except.ok.injEq, Prod.mk.injEq] at h
    obtain ⟨hlen, rfl, rfl⟩ := h
    have hlt := BigEndian.ofBytes_lt (read 4 s).1
    rw [hlen] at hlt
    have hlt : BigEndian.ofBytes (read 4 s).1 < 2 ^ 32 := by omega
    refine ⟨hlt, _, if_pos hlt, ?_⟩
    rw [BigEndian.toBytes_ofBytes hlen]
    exact eq_append_of_read rfl

/-- A read of exactly `n` bytes is a lawful codec of the byte strings of length `n`; `e` is the
failure at the end of the stream. -/
lemma lawful_read (n : ℕ) (e : PyError) :
    Lawful (fun b : Bytes => b.length = n) (fun b => .ok b)
      (fun f => if (read n f).1.length ≠ n then .error e else .ok (read n f)) where
  dec_enc b hb := ⟨b, rfl, fun rest => by simp [read_append hb rest, hb]⟩
  enc_dec := by
    intro s b rest h
    rw [guard_eq_ok] at h
    obtain ⟨hlen, hread⟩ := h
    have hread := Except.ok.inj hread
    rw [hread] at hlen
    exact ⟨not_not.mp hlen, b, rfl, eq_append_of_read hread⟩

lemma lawful_counted :
    Lawful (fun b : Bytes => b.length < 2 ^ 32) streamCounted parseCounted := by
  have h := Lawful.sized List.length lawful_uint32
    (fun n _ => lawful_read n .assertionError) (fun _ _ h => h)
  exact h.congr_dom fun b => by simp

/-- `parse_bool` and `stream_bool`. -/
lemma lawful_bool :
    Lawful (fun v : PyValue ξ => ∃ b, v = .bool b) streamBool parseBool where
  dec_enc := by
    rintro _ ⟨b, rfl⟩
    refine ⟨_, rfl, fun rest => ?_⟩
    rw [parseBool, List.singleton_append, read_one_cons]
    cases b <;> simp
  enc_dec := by
    intro s v rest h
    have hs : s = (read 1 s).1 ++ (read 1 s).2 := eq_append_of_read rfl
    simp only [parseBool, throw_eq, pure_eq, guard_eq_ok, not_not] at h
    obtain ⟨-, h⟩ := h
    split at h
    · rename_i hb
      obtain ⟨rfl, rfl⟩ := Prod.mk.inj (Except.ok.inj h)
      exact ⟨⟨false, rfl⟩, [0], rfl, by rw [← hb]; exact hs⟩
    · split at h
      · rename_i hb
        obtain ⟨rfl, rfl⟩ := Prod.mk.inj (Except.ok.inj h)
        exact ⟨⟨true, rfl⟩, [1], rfl, by rw [← hb]; exact hs⟩
      · cases h

/-- `parse_optional` and `stream_optional` around a lawful codec of values other than `None`. -/
lemma lawful_optional {dom : PyValue ξ → Prop} {enc : StreamFunction ξ} {dec : ParseFunction ξ}
    (h : Lawful dom enc dec) (hnone : ¬dom .none) :
    Lawful (fun v => v = .none ∨ dom v) (streamOptional enc) (parseOptional dec) where
  dec_enc := by
    rintro v (rfl | hv)
    · refine ⟨[0], rfl, fun rest => ?_⟩
      rw [parseOptional, List.singleton_append, read_one_cons]
      simp
    · obtain ⟨w, hw, hdec⟩ := h.dec_enc v hv
      refine ⟨[1] ++ w, ?_, fun rest => ?_⟩
      · cases v <;> first | exact absurd hv hnone | simp [streamOptional, hw]
      · rw [List.append_assoc, parseOptional, List.singleton_append, read_one_cons]
        simp [hdec]
  enc_dec := by
    intro s v rest hok
    have hs : s = (read 1 s).1 ++ (read 1 s).2 := eq_append_of_read rfl
    simp only [parseOptional, throw_eq, pure_eq, guard_eq_ok, not_not] at hok
    obtain ⟨-, hok⟩ := hok
    split at hok
    · rename_i hb
      obtain ⟨rfl, rfl⟩ := Prod.mk.inj (Except.ok.inj hok)
      exact ⟨.inl rfl, [0], rfl, by rw [← hb]; exact hs⟩
    · split at hok
      · rename_i hb
        obtain ⟨hv, w, hw, hrest⟩ := h.enc_dec hok
        refine ⟨.inr hv, [1] ++ w, ?_, ?_⟩
        · cases v <;> first | exact absurd hv hnone | simp [streamOptional, hw]
        · rw [List.append_assoc, ← hrest, ← hb]
          exact hs
      · cases hok

/-- `parse_str` and `stream_str`, on the strings that UTF-8 can encode. -/
lemma lawful_str :
    Lawful (fun v : PyValue ξ => ∃ s, v = .str s ∧ NoSurrogate s ∧
      ∀ b, strEncode s = .ok b → b.length < 2 ^ 32) streamStr parseStr := by
  have hstr := lawful_counted.convert (f := strDecode) (g := strEncode)
    (d := fun s => NoSurrogate s ∧ ∀ b, strEncode s = .ok b → b.length < 2 ^ 32)
    (fun s hs => by
      obtain ⟨b, hb, hdec⟩ := strDecode_strEncode hs.1
      exact ⟨b, hb, hs.2 b hb, hdec⟩)
    (fun b s hb hs => by
      obtain ⟨hns, henc⟩ := strEncode_strDecode hs
      refine ⟨⟨hns, fun b' hb' => ?_⟩, henc⟩
      obtain rfl := Except.ok.inj (henc.symm.trans hb')
      exact hb)
  have hval := hstr.wrap (γ := PyValue ξ) (e := streamStr) .str (fun _ _ => rfl)
  convert hval using 1
  funext f
  simp only [parseStr, bind_assoc, pure_bind]

/-- `parse_list` and `stream_list` around a lawful codec. -/
lemma lawful_list {dom : PyValue ξ → Prop} {enc : StreamFunction ξ} {dec : ParseFunction ξ}
    (h : Lawful dom enc dec) :
    Lawful (fun v => ∃ vs, v = .list vs ∧ vs.length < 2 ^ 32 ∧ ∀ w ∈ vs, dom w)
      (streamList enc) (parseList dec) := by
  have hmany := Lawful.sized List.length lawful_uint32 (fun n _ => h.many n) (fun _ _ h => h.1)
  have hdom := hmany.congr_dom (d := fun vs => vs.length < 2 ^ 32 ∧ ∀ w ∈ vs, dom w)
    fun vs => by simp
  have hval := hdom.wrap (e := streamList enc) .list (fun _ _ => rfl)
  convert hval using 1
  funext f
  simp only [parseList, bind_assoc]

/-- `SizedBytes.parse` and `SizedBytes.stream`. -/
lemma lawful_sizedBytes (E : ExternalTypes κ ξ) (size : ℕ) :
    Lawful (fun v : PyValue ξ => ∃ b, v = .bytes b ∧ b.length = size)
      (classStream E [] (.item (.sizedBytes size))) (classParse E [] (.item (.sizedBytes size))) := by
  have hval := (lawful_read size .valueError).wrap
    (e := classStream E [] (.item (.sizedBytes size))) (PyValue.bytes (ξ := ξ))
    (fun _ _ => rfl)
  convert hval using 1
  funext f
  simp only [classParse, parseSizedBytes]
  split <;> rfl

/-- `parse_size_hints` and `stream_byte_convertible` for a BLS element. -/
lemma lawful_element (E : ExternalTypes κ ξ) (k : κ) :
    Lawful (fun v : PyValue ξ => ∃ x, v = .ext x ∧ E.isElement k x)
      (classBytes E (.item (.element k))) (classSizeHints E (.item (.element k))) := by
  have helem := (lawful_read (E.sizeHint k) .assertionError).convert (d := E.isElement k)
    (f := E.elementFromBytes k) (g := fun x => .ok (E.elementToBytes k x))
    (fun x hx => ⟨_, rfl, E.element_length k x hx, E.element_from_to k x hx⟩)
    (fun b x hb hx => by
      obtain ⟨he, hto⟩ := E.element_to_from k b x hb hx
      exact ⟨he, by rw [hto]⟩)
  have hval := helem.wrap (γ := PyValue ξ) (e := classBytes E (.item (.element k))) .ext
    (fun _ _ => rfl)
  convert hval using 1
  funext f
  simp only [classSizeHints, parseSizeHints, bind_assoc, pure_bind, throw_eq]
  split <;> rfl

end Leaves

/-! ## The grammar -/

lemma not_hasType_none (E : ExternalTypes κ ξ) (strOk : List CodePoint → Prop)
    (t : ItemType κ) : ¬t.HasType E strOk .none := by
  cases t <;> simp [ItemType.HasType]

lemma length_of_haveTypes {E : ExternalTypes κ ξ} {strOk : List CodePoint → Prop} :
    ∀ {ts : List (FieldType κ)} {vs : List (PyValue ξ)},
      FieldType.HaveTypes E strOk ts vs → (streamFields E ts).length = vs.length
  | [], vs, h => by
    simp only [FieldType.HaveTypes] at h
    simp [streamFields, h]
  | t :: ts, vs, h => by
    simp only [FieldType.HaveTypes] at h
    obtain ⟨w, ws, rfl, -, hws⟩ := h
    simp [streamFields, length_of_haveTypes hws]

mutual

lemma lawful_field (E : ExternalTypes κ ξ) : ∀ t : FieldType κ,
    Lawful (FieldType.HasType E NoSurrogate t) (streamField E t) (parseField E t)
  | .item t => by
    have h := lawful_item E t
    simp only [streamField, parseField]
    exact h.congr_dom fun v => by simp only [FieldType.HasType]
  | .optional t => by
    have h := lawful_optional (lawful_item E t) (not_hasType_none E NoSurrogate t)
    simp only [streamField, parseField, dispatchStream, dispatchParse, typeTests,
      Bool.false_eq_true, if_false, if_true]
    exact h.congr_dom fun v => by simp only [FieldType.HasType]

/-- The functions selected for an item type form a lawful codec of its encodable values.

**Proof sketch.** Induction over the grammar. For each type both dispatchers are evaluated on the
tests it answers; the branches they reach are the two halves of one leaf codec, or of a
combinator around the codecs of the arguments. -/
lemma lawful_item (E : ExternalTypes κ ξ) : ∀ t : ItemType κ,
    Lawful (ItemType.HasType E NoSurrogate t) (streamItem E t) (parseItem E t)
  | .int c => by
    have h := c.lawful.wrap (e := classStream E [] (.item (.int c))) (PyValue.int (ξ := ξ))
      (fun _ _ => rfl)
    simp only [streamItem, parseItem, dispatchStream, dispatchParse, typeTests, Bool.false_eq_true,
      if_false, if_true]
    exact h.congr_dom fun v => by simp only [ItemType.HasType]
  | .bool => by
    simp only [streamItem, parseItem, dispatchStream, dispatchParse, typeTests, Bool.false_eq_true,
      if_false, if_true]
    exact lawful_bool.congr_dom fun v => by simp only [ItemType.HasType]
  | .sizedBytes size => by
    simp only [streamItem, parseItem, dispatchStream, dispatchParse, typeTests, Bool.false_eq_true,
      if_false, if_true]
    exact (lawful_sizedBytes E size).congr_dom fun v => by simp only [ItemType.HasType]
  | .bytes => by
    have h := lawful_counted.wrap (e := streamBytes) (PyValue.bytes (ξ := ξ)) (fun _ _ => rfl)
    simp only [streamItem, parseItem, dispatchStream, dispatchParse, typeTests, Bool.false_eq_true,
      if_false, if_true]
    exact h.congr_dom fun v => by simp only [ItemType.HasType]
  | .str => by
    simp only [streamItem, parseItem, dispatchStream, dispatchParse, typeTests, Bool.false_eq_true,
      if_false, if_true]
    exact lawful_str.congr_dom fun v => by simp only [ItemType.HasType]
  | .list t => by
    have h := lawful_list (lawful_field E t)
    simp only [streamItem, parseItem, dispatchStream, dispatchParse, typeTests, Bool.false_eq_true,
      if_false, if_true, List.headD_cons]
    exact h.congr_dom fun v => by simp only [ItemType.HasType]
  | .tuple ts => by
    have h := (lawful_fields E ts).wrap (e := streamTuple (streamFields E ts)) PyValue.tuple
      (fun vs hvs => if_neg (not_not.mpr (length_of_haveTypes hvs)))
    simp only [streamItem, parseItem, dispatchStream, dispatchParse, typeTests, Bool.false_eq_true,
      if_false, if_true]
    exact h.congr_dom fun v => by simp only [ItemType.HasType]
  | .streamable cls ts => by
    have h := (lawful_fields E ts).wrap
      (e := classStream E (streamFields E ts) (.item (.streamable cls ts))) (PyValue.obj cls)
      (fun _ _ => rfl)
    simp only [streamItem, parseItem, dispatchStream, dispatchParse, typeTests, Bool.false_eq_true,
      if_false, if_true]
    exact h.congr_dom fun v => by simp only [ItemType.HasType]
  | .program k => by
    have h := (E.program_lawful k).wrap (e := classStream E [] (.item (.program k)))
      (PyValue.ext (ξ := ξ)) (fun _ _ => rfl)
    simp only [streamItem, parseItem, dispatchStream, dispatchParse, typeTests, Bool.false_eq_true,
      if_false, if_true]
    exact h.congr_dom fun v => by simp only [ItemType.HasType]
  | .element k => by
    have h := lawful_element E k
    simp only [streamItem, parseItem, dispatchStream, dispatchParse, typeTests, Bool.false_eq_true,
      if_false, if_true]
    exact h.congr_dom fun v => by simp only [ItemType.HasType]

lemma lawful_fields (E : ExternalTypes κ ξ) : ∀ ts : List (FieldType κ),
    Lawful (FieldType.HaveTypes E NoSurrogate ts) (encEach (streamFields E ts))
      (decEach (parseFields E ts))
  | [] => by
    simp only [streamFields, parseFields]
    exact Lawful.nil.congr_dom fun vs => by simp only [FieldType.HaveTypes]
  | t :: ts => by
    have h := (lawful_field E t).cons (lawful_fields E ts)
    simp only [streamFields, parseFields]
    exact h.congr_dom fun vs => by simp only [FieldType.HaveTypes]

end

/-! ## The two round trips -/

/-- **Streamable is a bijective codec.** For a class with any fields: an object whose lengths fit
in `uint32` and whose strings have no surrogates is parsed back from its bytes, and accepted bytes
are the bytes of the object they parse to; so no two byte strings parse to the same object, and an
object has at most one accepted encoding. -/
theorem streamable_bijective (E : ExternalTypes κ ξ) (cls : String)
    (fields : List (FieldType κ)) :
    (∀ v, ItemType.HasType E NoSurrogate (.streamable cls fields) v →
      (toBytes E cls fields v >>= fromBytes E cls fields) = .ok v) ∧
    (∀ b v, fromBytes E cls fields b = .ok v → toBytes E cls fields v = .ok b) ∧
    (∀ b b' v, fromBytes E cls fields b = .ok v → fromBytes E cls fields b' = .ok v → b = b') := by
  have h := lawful_item E (.streamable cls fields)
  have hback : ∀ b v, fromBytes E cls fields b = .ok v → toBytes E cls fields v = .ok b :=
    fun b v hb => (h.encode_decWhole hb).2
  refine ⟨fun v hv => h.decWhole_encode .assertionError hv, hback, fun b b' v hb hb' => ?_⟩
  exact Except.ok.inj ((hback b v hb).symm.trans (hback b' v hb'))

/-- The grammar without external types. -/
def noExternalTypes : ExternalTypes Empty Empty where
  programParse k := k.elim
  programStream k := k.elim
  isProgram k := k.elim
  program_lawful k := k.elim
  sizeHint k := k.elim
  elementFromBytes k := k.elim
  elementToBytes k := k.elim
  isElement k := k.elim
  element_length k := k.elim
  element_from_to k := k.elim
  element_to_from k := k.elim

/-- An object with an optional integer and a list of sized byte strings survives the trip. -/
theorem streamable_bijective_sample :
    (toBytes noExternalTypes "Sample"
        [.optional (.int .uint64), .item (.list (.item (.sizedBytes 2)))]
        (.obj "Sample" [.int 7, .list [.bytes [1, 2]]]) >>=
      fromBytes noExternalTypes "Sample"
        [.optional (.int .uint64), .item (.list (.item (.sizedBytes 2)))]) =
      .ok (.obj "Sample" [.int 7, .list [.bytes [1, 2]]]) := by
  refine (streamable_bijective noExternalTypes "Sample" _).1 _ ?_
  simp [ItemType.HasType, FieldType.HaveTypes, FieldType.HasType, SizedInt.InRange,
    SizedInt.MINIMUM, SizedInt.MAXIMUM_EXCLUSIVE, SizedInt.SIGNED, SizedInt.BITS]

/-- A string with a lone surrogate is a well-typed value that cannot be streamed: `encode` raises
`UnicodeEncodeError`. -/
theorem lone_surrogate_not_streamable :
    ItemType.HasType noExternalTypes (fun _ => True) (.streamable "Sample" [.item .str])
        (.obj "Sample" [.str [0xD800]]) ∧
      (toBytes noExternalTypes "Sample" [.item .str] (.obj "Sample" [.str [0xD800]])
        >>= fromBytes noExternalTypes "Sample" [.item .str]) ≠
        .ok (.obj "Sample" [.str [0xD800]]) := by
  have henc : strEncode [0xD800] = .error .unicodeError := by
    decide
  refine ⟨?_, ?_⟩
  · simp [ItemType.HasType, FieldType.HaveTypes, FieldType.HasType, henc]
  · simp [toBytes, streamItem, streamFields, streamField, dispatchStream, typeTests, classStream,
      encEach, streamStr, henc]

end Streamable

end Chives
