import Chives.Library.Hex
import Chives.Util.Streamable

set_option autoImplicit false

/-!
# The JSON form of Streamable objects

`to_json_dict` and `from_json_dict` of `util/streamable.py`: `recurse_jsonify` dispatches on the value at
run time, `dataclass_from_dict` on the declared type, and a class that is built from keywords checks its
fields again in `__post_init__`.

## Main definitions

* `Json` — the values that the `json` package writes and reads.
* `JsonTypes` — what is assumed of the classes and of the types of other packages.
* `Streamable.recurseJsonify`, `Streamable.dispatchFromDict`,
  `Streamable.postInitField` — the three recursive functions.
* `Streamable.toJsonDict`, `Streamable.fromJsonDict` — the two methods of a class.

## Main results

* `Streamable.reads_field` — by induction over the grammar, a value of a type is read back from
  what it is written as, and `__post_init__` keeps it.
* `Streamable.fromJsonDict_toJsonDict` — the round trip of a class.

## Design

What Python's constructors make of a value of another type (`str` of a dictionary, `int` of a text) is a
parameter: it is not reached by values of the declared type.
-/

namespace Chives

open ExceptRun

/-- A value as the `json` package has it. -/
inductive Json : Type
  | null
  | bool (b : Bool)
  | int (n : ℤ)
  | str (s : List CodePoint)
  | list (items : List Json)
  | dict (entries : List (String × Json))

/-- The classes and the external types `κ` with values `ξ`, as far as the JSON functions use them.
`fieldNames` are the names of the fields of a class. `toBytes` is `bytes(d)` of an external value,
`construct` the constructor of its class on bytes. `castJson` and `castField` are what the constructor of a
class makes of a value that is not of the class. -/
structure JsonTypes (κ ξ : Type) where
  fieldNames : String → List String
  isBytesSubclass : κ → Bool
  construct : κ → Bytes → Except PyError ξ
  fromBytesUnchecked : κ → Option (Bytes → Except PyError ξ)
  fromBytes : κ → Bytes → Except PyError ξ
  toBytes : ξ → Bytes
  isInstance : κ → ξ → Bool
  castJson : ItemType κ → Json → Except PyError (PyValue ξ)
  castField : ItemType κ → PyValue ξ → Except PyError (PyValue ξ)

variable {κ ξ : Type}

namespace JsonTypes

/-- How an external value is read from its bytes: a subclass of `bytes` by its constructor, and another
class by `from_bytes_unchecked` if it has that method and else by `from_bytes`. -/
def readBytes (E : JsonTypes κ ξ) (k : κ) (b : Bytes) : Except PyError ξ :=
  if E.isBytesSubclass k then E.construct k b
  else match E.fromBytesUnchecked k with
    | some f => f b
    | none => E.fromBytes k b

/-- External values round trip through their bytes. -/
def RoundTrips (E : JsonTypes κ ξ) : Prop :=
  ∀ k x, E.isInstance k x = true → E.readBytes k (E.toBytes x) = .ok x

end JsonTypes

/-! ## Typing -/

mutual

/-- `v` is a value of the field type `t`. -/
def FieldType.IsValue (E : JsonTypes κ ξ) : FieldType κ → PyValue ξ → Prop
  | .optional t, v => v = .none ∨ ItemType.IsValue E t v
  | .item t, v => ItemType.IsValue E t v

/-- `v` is a value of the item type `t`. -/
def ItemType.IsValue (E : JsonTypes κ ξ) : ItemType κ → PyValue ξ → Prop
  | .int c, v => ∃ n, v = .int n ∧ c.InRange n
  | .bool, v => ∃ b, v = .bool b
  | .sizedBytes size, v => ∃ b, v = .bytes b ∧ b.length = size
  | .bytes, v => ∃ b, v = .bytes b
  | .str, v => ∃ s, v = .str s
  | .list t, v => ∃ vs, v = .list vs ∧ ∀ w ∈ vs, FieldType.IsValue E t w
  | .tuple ts, v => ∃ vs, v = .tuple vs ∧ FieldType.AreValues E ts vs
  | .streamable cls ts, v => ∃ vs, v = .obj cls vs ∧ FieldType.AreValues E ts vs
  | .program k, v => ∃ x, v = .ext x ∧ E.isInstance k x = true
  | .element k, v => ∃ x, v = .ext x ∧ E.isInstance k x = true

/-- The values have the types, position by position. -/
def FieldType.AreValues (E : JsonTypes κ ξ) : List (FieldType κ) → List (PyValue ξ) → Prop
  | [], vs => vs = []
  | t :: ts, vs => ∃ w ws, vs = w :: ws ∧ FieldType.IsValue E t w ∧ FieldType.AreValues E ts ws

end

mutual

/-- Every class in the type has one name for each field, and the names are distinct. -/
def FieldType.Declared (E : JsonTypes κ ξ) : FieldType κ → Prop
  | .optional t => ItemType.Declared E t
  | .item t => ItemType.Declared E t

/-- Every class in the type has one name for each field, and the names are distinct. -/
def ItemType.Declared (E : JsonTypes κ ξ) : ItemType κ → Prop
  | .list t => FieldType.Declared E t
  | .tuple ts => FieldType.AllDeclared E ts
  | .streamable cls ts => (E.fieldNames cls).length = ts.length ∧ (E.fieldNames cls).Nodup ∧
      FieldType.AllDeclared E ts
  | _ => True

/-- Every class in the types has one name for each field, and the names are distinct. -/
def FieldType.AllDeclared (E : JsonTypes κ ξ) : List (FieldType κ) → Prop
  | [] => True
  | t :: ts => FieldType.Declared E t ∧ FieldType.AllDeclared E ts

end

namespace Streamable

/-! ## Writing -/

/-- `f"0x{b.hex()}"`. -/
def hexText (b : Bytes) : List CodePoint := (['0', 'x'] ++ Hex.encode b).map CodePoint.ofChar

mutual

/-- `recurse_jsonify`. -/
def recurseJsonify (E : JsonTypes κ ξ) : PyValue ξ → Json
  | .obj cls vs => .dict ((E.fieldNames cls).zip (recurseJsonifyAll E vs))
  | .list vs => .list (recurseJsonifyAll E vs)
  | .tuple vs => .list (recurseJsonifyAll E vs)
  | .ext x => .str (hexText (E.toBytes x))
  | .bytes b => .str (hexText b)
  | .bool b => .bool b
  | .int n => .int n
  | .none => .null
  | .str s => .str s

/-- `recurse_jsonify` of each item. -/
def recurseJsonifyAll (E : JsonTypes κ ξ) : List (PyValue ξ) → List Json
  | [] => []
  | v :: vs => recurseJsonify E v :: recurseJsonifyAll E vs

end

/-! ## Reading -/

/-- `hexstr_to_bytes`. -/
def hexstrToBytes (s : List CodePoint) : Except PyError Bytes :=
  match s.mapM CodePoint.toChar? with
  | none => .error .valueError
  | some chars =>
    let digits := if chars.take 2 = ['0', 'x'] ∨ chars.take 2 = ['0', 'X'] then chars.drop 2 else chars
    match Hex.decode digits with
    | some b => .ok b
    | none => .error .valueError

/-- `hexstr_to_bytes(d)`, where only a text has `startswith`. -/
def hexOf : Json → Except PyError Bytes
  | .str s => hexstrToBytes s
  | _ => .error .typeError

/-- `for item in d`. -/
def iterate : Json → Except PyError (List Json)
  | .list items => .ok items
  | .dict entries => .ok (entries.map fun e => .str (e.1.toList.map CodePoint.ofChar))
  | .str s => .ok (s.map fun c => .str [c])
  | _ => .error .typeError

/-- A function that reads a value of one type. -/
abbrev FromDict (ξ : Type) := Json → Except PyError (PyValue ξ)

/-- A function that checks a field. -/
abbrev PostInit (ξ : Type) := PyValue ξ → Except PyError (PyValue ξ)

/-- The loop over a tuple: the next type reads the next item, and there must be one. -/
def tupleItems : List (FromDict ξ) → List Json → Except PyError (List (PyValue ξ))
  | _, [] => .ok []
  | [], _ :: _ => .error .indexError
  | g :: gs, item :: items => do
    let v ← g item
    let vs ← tupleItems gs items
    return v :: vs

/-- `{f: dataclass_from_dict(fieldtypes[f], d[f]) for f in d}`. -/
def keywords (fieldtypes : List (String × FromDict ξ)) :
    List (String × Json) → Except PyError (List (String × PyValue ξ))
  | [] => .ok []
  | (f, item) :: d => do
    let g ← match fieldtypes.lookup f with
      | some g => .ok g
      | none => .error .keyError
    let v ← g item
    let kw ← keywords fieldtypes d
    return (f, v) :: kw

/-- `__post_init__`: each field is checked. -/
def checkFields : List (PostInit ξ) → List (PyValue ξ) → Except PyError (List (PyValue ξ))
  | check :: checks, v :: vs => do
    let w ← check v
    let ws ← checkFields checks vs
    return w :: ws
  | _, _ => .ok []

/-- `klass(**kw)`: every field has a keyword, and is then checked. -/
def construct (cls : String) (names : List String) (checks : List (PostInit ξ))
    (kw : List (String × PyValue ξ)) : Except PyError (PyValue ξ) := do
  let vs ← names.mapM fun f => match kw.lookup f with
    | some v => .ok v
    | none => .error .typeError
  let vs ← checkFields checks vs
  return .obj cls vs

/-- The entries of a dictionary. Another value has none, or `d[f]` raises. -/
def entriesOf : Json → Except PyError (List (String × Json))
  | .dict entries => .ok entries
  | d => do
    let items ← iterate d
    if items.isEmpty then return [] else throw .typeError

/-- The tests that `dataclass_from_dict` makes on a type. -/
structure JsonTests where
  isSpecificOptional : Bool := false
  isTuple : Bool := false
  isDataclass : Bool := false
  isList : Bool := false
  isBytesSubclass : Bool := false
  isUnhashable : Bool := false

/-- What the tests say of each type of the grammar. -/
def jsonTests (E : JsonTypes κ ξ) : FieldType κ → JsonTests
  | .optional _ => { isSpecificOptional := true }
  | .item (.tuple _) => { isTuple := true }
  | .item (.streamable _ _) => { isDataclass := true }
  | .item (.list _) => { isList := true }
  | .item (.sizedBytes _) => { isBytesSubclass := true }
  | .item .bytes => { isBytesSubclass := true }
  | .item (.program k) => { isBytesSubclass := E.isBytesSubclass k, isUnhashable := true }
  | .item (.element k) => { isBytesSubclass := E.isBytesSubclass k, isUnhashable := true }
  | _ => {}

/-- `klass(b)` for a subclass of `bytes`. -/
def bytesSubclass (E : JsonTypes κ ξ) : FieldType κ → Bytes → Except PyError (PyValue ξ)
  | .item (.sizedBytes size), b => if b.length ≠ size then .error .valueError else .ok (.bytes b)
  | .item .bytes, b => .ok (.bytes b)
  | .item (.program k), b => (E.construct k b).map .ext
  | .item (.element k), b => (E.construct k b).map .ext
  | _, _ => .error .typeError

/-- `from_bytes_method(b)` for a type of another package. -/
def unhashable (E : JsonTypes κ ξ) : FieldType κ → Bytes → Except PyError (PyValue ξ)
  | .item (.program k), b => (((E.fromBytesUnchecked k).getD (E.fromBytes k)) b).map .ext
  | .item (.element k), b => (((E.fromBytesUnchecked k).getD (E.fromBytes k)) b).map .ext
  | _, _ => .error .typeError

/-- `klass(d)` for a primitive. -/
def primitive (E : JsonTypes κ ξ) : FieldType κ → FromDict ξ
  | .item (.int c), .int n => (c.new n).map .int
  | .item .bool, .bool b => .ok (.bool b)
  | .item .str, .str s => .ok (.str s)
  | .item t, d => E.castJson t d
  | .optional _, _ => .error .typeError

/-- The name of a class. -/
def className : FieldType κ → String
  | .item (.streamable cls _) => cls
  | _ => ""

/-- `dataclass_from_dict`, branch by branch; `inner` are its recursive calls on the arguments of the type,
and `checks` the checks of the fields, for a class. -/
def dispatchFromDict (E : JsonTypes κ ξ) (t : FieldType κ) (inner : List (FromDict ξ))
    (checks : List (PostInit ξ)) : FromDict ξ :=
  let first : FromDict ξ := inner.headD fun _ => .error .indexError
  if (jsonTests E t).isSpecificOptional then fun d => match d with
    | .null => .ok .none
    | d => first d
  else if (jsonTests E t).isTuple then fun d => do
    let items ← iterate d
    let vs ← tupleItems inner items
    return .tuple vs
  else if (jsonTests E t).isDataclass then fun d => do
    let entries ← entriesOf d
    let kw ← keywords ((E.fieldNames (className t)).zip inner) entries
    construct (className t) (E.fieldNames (className t)) checks kw
  else if (jsonTests E t).isList then fun d => do
    let items ← iterate d
    let vs ← items.mapM first
    return .list vs
  else if (jsonTests E t).isBytesSubclass then fun d => do
    let b ← hexOf d
    bytesSubclass E t b
  else if (jsonTests E t).isUnhashable then fun d => do
    let b ← hexOf d
    unhashable E t b
  else primitive E t

/-! ## Checking the fields -/

/-- `isinstance(item, f_type)` for a type that is no generic. The class of an integer or of a byte string
is what its range or its length is. -/
def isInstance (E : JsonTypes κ ξ) : ItemType κ → PyValue ξ → Bool
  | .int c, .int n => decide (c.InRange n)
  | .bool, .bool _ => true
  | .sizedBytes size, .bytes b => b.length = size
  | .bytes, .bytes _ => true
  | .str, .str _ => true
  | .streamable cls _, .obj cls' _ => cls = cls'
  | .program k, .ext x => E.isInstance k x
  | .element k, .ext x => E.isInstance k x
  | _, _ => false

/-- The last part of `post_init_parse`: an instance is kept, another value is cast. -/
def castUnlessInstance (E : JsonTypes κ ξ) (t : ItemType κ) (item : PyValue ξ) :
    Except PyError (PyValue ξ) :=
  if isInstance E t item then .ok item
  else do
    let item ← E.castField t item
    if isInstance E t item then return item else throw .valueError

mutual

/-- `post_init_parse` of a field type. `__post_init__` skips it for an instance, which it would keep. -/
def postInitField (E : JsonTypes κ ξ) : FieldType κ → PostInit ξ
  | .optional t, item => match item with
    | .none => .ok .none
    | item => postInitItem E t item
  | .item t, item => postInitItem E t item

/-- `post_init_parse` of an item type. -/
def postInitItem (E : JsonTypes κ ξ) : ItemType κ → PostInit ξ
  | .list t, item => match item with
    | .list vs => do
      let vs ← vs.mapM (postInitField E t)
      return .list vs
    | _ => .error .valueError
  | .tuple ts, item => match item with
    | .tuple vs | .list vs =>
      if vs.length ≠ ts.length then .error .valueError
      else do
        let vs ← checkFields (postInitFields E ts) vs
        return .tuple vs
    | _ => .error .valueError
  | t, item => castUnlessInstance E t item

/-- The checks of the fields of a class. -/
def postInitFields (E : JsonTypes κ ξ) : List (FieldType κ) → List (PostInit ξ)
  | [] => []
  | t :: ts => postInitField E t :: postInitFields E ts

end

mutual

/-- `dataclass_from_dict` of a field type, with its recursive calls. -/
def fromDictField (E : JsonTypes κ ξ) : FieldType κ → FromDict ξ
  | .optional t => dispatchFromDict E (.optional t) [fromDictItem E t] []
  | .item t => fromDictItem E t

/-- `dataclass_from_dict` of an item type, with its recursive calls. -/
def fromDictItem (E : JsonTypes κ ξ) : ItemType κ → FromDict ξ
  | .list t => dispatchFromDict E (.item (.list t)) [fromDictField E t] []
  | .tuple ts => dispatchFromDict E (.item (.tuple ts)) (fromDictFields E ts) []
  | .streamable cls ts => dispatchFromDict E (.item (.streamable cls ts)) (fromDictFields E ts)
      (postInitFields E ts)
  | .int c => dispatchFromDict E (.item (.int c)) [] []
  | .bool => dispatchFromDict E (.item .bool) [] []
  | .sizedBytes n => dispatchFromDict E (.item (.sizedBytes n)) [] []
  | .bytes => dispatchFromDict E (.item .bytes) [] []
  | .str => dispatchFromDict E (.item .str) [] []
  | .program k => dispatchFromDict E (.item (.program k)) [] []
  | .element k => dispatchFromDict E (.item (.element k)) [] []

/-- `dataclass_from_dict` of each type. -/
def fromDictFields (E : JsonTypes κ ξ) : List (FieldType κ) → List (FromDict ξ)
  | [] => []
  | t :: ts => fromDictField E t :: fromDictFields E ts

end

/-- `Streamable.to_json_dict`. -/
def toJsonDict (E : JsonTypes κ ξ) (v : PyValue ξ) : Json := recurseJsonify E v

/-- `Streamable.from_json_dict` of a class with the given fields. -/
def fromJsonDict (E : JsonTypes κ ξ) (cls : String) (fields : List (FieldType κ)) : FromDict ξ :=
  fromDictItem E (.streamable cls fields)

/-! ## The leaves -/

lemma hexstrToBytes_hexText (b : Bytes) : hexstrToBytes (hexText b) = .ok b := by
  have hchars : (hexText b).mapM CodePoint.toChar? = some (['0', 'x'] ++ Hex.encode b) := by
    rw [hexText]
    generalize ['0', 'x'] ++ Hex.encode b = cs
    induction cs with
    | nil => rfl
    | cons c cs ih => simp [List.mapM_cons, ih]
  rw [hexstrToBytes, hchars]
  simp [Hex.decode_encode]

lemma recurseJsonifyAll_eq_map (E : JsonTypes κ ξ) (vs : List (PyValue ξ)) :
    recurseJsonifyAll E vs = vs.map (recurseJsonify E) := by
  induction vs with
  | nil => simp [recurseJsonifyAll]
  | cons v vs ih => simp [recurseJsonifyAll, ih]

lemma recurseJsonify_eq_null {E : JsonTypes κ ξ} {v : PyValue ξ} (h : recurseJsonify E v = .null) :
    v = .none := by
  cases v <;> simp [recurseJsonify] at h ⊢

lemma not_isValue_none (E : JsonTypes κ ξ) (t : ItemType κ) : ¬t.IsValue E .none := by
  cases t <;> simp [ItemType.IsValue]

lemma mapM_eq_self {α β : Type} {f : β → Except PyError α} {g : α → β} {vs : List α}
    (h : ∀ v ∈ vs, f (g v) = .ok v) : (vs.map g).mapM f = .ok vs := by
  induction vs with
  | nil => rfl
  | cons v vs ih =>
    rw [List.map_cons, List.mapM_cons, h v List.mem_cons_self, ok_bind,
      ih fun w hw => h w (List.mem_cons_of_mem _ hw)]
    rfl

/-! ## Dictionaries -/

lemma keywords_cons_of_notMem {f : String} {g : FromDict ξ} {fieldtypes : List (String × FromDict ξ)}
    {d : List (String × Json)} (h : f ∉ d.map Prod.fst) :
    keywords ((f, g) :: fieldtypes) d = keywords fieldtypes d := by
  induction d with
  | nil => rfl
  | cons e d ih =>
    obtain ⟨f', item⟩ := e
    rw [List.map_cons, List.mem_cons, not_or] at h
    have hlookup : ((f, g) :: fieldtypes).lookup f' = fieldtypes.lookup f' := by
      rw [List.lookup_cons, beq_false_of_ne (Ne.symm h.1)]
    rw [keywords, keywords, hlookup, ih h.2]

variable {names : List String}

lemma mapM_lookup_cons_of_notMem {f : String} {v : PyValue ξ} {kw : List (String × PyValue ξ)} (h : f ∉ names) :
    (names.mapM fun n => match ((f, v) :: kw).lookup n with
      | some v => Except.ok v
      | none => .error PyError.typeError) =
    names.mapM fun n => match kw.lookup n with
      | some v => Except.ok v
      | none => .error PyError.typeError := by
  apply mapM_congr_of_mem
  intro n hn
  have hne : n ≠ f := fun he => h (he ▸ hn)
  rw [List.lookup_cons, beq_false_of_ne hne]

/-- `recurse_jsonify` of the fields of an object and `dataclass_from_dict` of its entries: the keywords are
the values of the fields. -/
lemma keywords_zip {E : JsonTypes κ ξ} {inner : List (FromDict ξ)} {vs : List (PyValue ξ)} (hnodup : names.Nodup)
    (hread : List.Forall₂ (fun g v => g (recurseJsonify E v) = .ok v) inner vs) :
    keywords (names.zip inner) (names.zip (vs.map (recurseJsonify E))) = .ok (names.zip vs) := by
  induction hread generalizing names with
  | nil => simp [keywords]
  | @cons g v inner vs hv _ ih =>
    cases names with
    | nil => rfl
    | cons f names =>
      rw [List.nodup_cons] at hnodup
      have hnot : f ∉ (names.zip (vs.map (recurseJsonify E))).map Prod.fst := fun hmem => by
        obtain ⟨e, he, rfl⟩ := List.mem_map.mp hmem
        exact hnodup.1 (List.of_mem_zip he).1
      simp only [List.zip_cons_cons, List.map_cons, keywords, List.lookup_cons_self, ok_bind, hv]
      rw [keywords_cons_of_notMem hnot, ih hnodup.2]
      rfl

lemma mapM_lookup_zip {vs : List (PyValue ξ)} (hnodup : names.Nodup) (hlen : names.length = vs.length) :
    (names.mapM fun n => match (names.zip vs).lookup n with
      | some v => Except.ok v
      | none => .error PyError.typeError) = .ok vs := by
  induction names generalizing vs with
  | nil =>
    rw [List.eq_nil_of_length_eq_zero hlen.symm]
    rfl
  | cons f names ih =>
    cases vs with
    | nil => cases hlen
    | cons v vs =>
      rw [List.nodup_cons] at hnodup
      rw [List.zip_cons_cons, List.mapM_cons, mapM_lookup_cons_of_notMem hnodup.1,
        ih hnodup.2 (by simpa using hlen)]
      simp only [List.lookup_cons_self, ok_bind]
      rfl

/-! ## The grammar -/

/-- The type reads a value from what it is written as, and `__post_init__` keeps it. -/
def Reads (E : JsonTypes κ ξ) (t : FieldType κ) (v : PyValue ξ) : Prop :=
  fromDictField E t (recurseJsonify E v) = .ok v ∧ postInitField E t v = .ok v

example (E : JsonTypes κ ξ) (b : Bool) : Reads E (.item .bool) (.bool b) := by
  simp [Reads, fromDictField, fromDictItem, dispatchFromDict, jsonTests, recurseJsonify, primitive, postInitField,
    postInitItem, castUnlessInstance, isInstance]

/-- Values that the fields read, position by position. -/
def AllRead (E : JsonTypes κ ξ) (ts : List (FieldType κ)) (vs : List (PyValue ξ)) : Prop :=
  List.Forall₂ (Reads E) ts vs

section Fields

variable {E : JsonTypes κ ξ} {ts : List (FieldType κ)} {vs : List (PyValue ξ)}

section

variable (h : AllRead E ts vs)

include h

lemma AllRead.forall_fromDict :
    List.Forall₂ (fun g v => g (recurseJsonify E v) = .ok v) (fromDictFields E ts) vs := by
  induction h with
  | nil => exact .nil
  | cons hv _ ih => exact .cons hv.1 ih

lemma AllRead.tupleItems_eq : tupleItems (fromDictFields E ts) (vs.map (recurseJsonify E)) = .ok vs := by
  induction h with
  | nil => rfl
  | @cons t v ts vs hv _ ih =>
    simp only [fromDictFields, List.map_cons, tupleItems, hv.1, ok_bind, ih]
    rfl

lemma AllRead.checkFields_eq : checkFields (postInitFields E ts) vs = .ok vs := by
  induction h with
  | nil => rfl
  | @cons t v ts vs hv _ ih =>
    simp only [postInitFields, checkFields, hv.2, ok_bind, ih]
    rfl

lemma AllRead.streamable {cls : String} (hlen : (E.fieldNames cls).length = ts.length)
    (hnodup : (E.fieldNames cls).Nodup) : Reads E (.item (.streamable cls ts)) (.obj cls vs) := by
  constructor
  · simp only [fromDictField, fromDictItem, dispatchFromDict, jsonTests, className, recurseJsonify,
      recurseJsonifyAll_eq_map, entriesOf, Bool.false_eq_true, if_false, if_true, ok_bind]
    rw [keywords_zip hnodup h.forall_fromDict]
    simp only [ok_bind, construct]
    rw [mapM_lookup_zip hnodup (hlen.trans h.length_eq)]
    simp only [ok_bind]
    rw [h.checkFields_eq]
    rfl
  · simp [postInitField, postInitItem, castUnlessInstance, isInstance]

lemma AllRead.tuple : Reads E (.item (.tuple ts)) (.tuple vs) := by
  constructor
  · simp only [fromDictField, fromDictItem, dispatchFromDict, jsonTests, recurseJsonify,
      recurseJsonifyAll_eq_map, iterate, Bool.false_eq_true, if_false, if_true, ok_bind]
    rw [h.tupleItems_eq]
    rfl
  · simp only [postInitField, postInitItem]
    rw [if_neg (not_not.mpr h.length_eq.symm), h.checkFields_eq]
    rfl

end

lemma reads_list {t : FieldType κ} (h : ∀ v ∈ vs, Reads E t v) :
    Reads E (.item (.list t)) (.list vs) := by
  constructor
  · simp only [fromDictField, fromDictItem, dispatchFromDict, jsonTests, recurseJsonify,
      recurseJsonifyAll_eq_map, iterate, Bool.false_eq_true, if_false, if_true, ok_bind,
      List.headD_cons]
    rw [mapM_eq_self fun v hv => (h v hv).1]
    rfl
  · have hkeep := mapM_eq_self (f := postInitField E t) (g := id) fun v hv => (h v hv).2
    rw [List.map_id] at hkeep
    simp only [postInitField, postInitItem, hkeep]
    rfl

lemma reads_optional {t : ItemType κ} {v : PyValue ξ} (h : Reads E (.item t) v) :
    Reads E (.optional t) v := by
  obtain ⟨hread, hkeep⟩ := h
  simp only [fromDictField, postInitField] at hread hkeep
  constructor
  · simp only [fromDictField, dispatchFromDict, jsonTests, if_true, List.headD_cons]
    split
    · rename_i hnull
      rw [recurseJsonify_eq_null hnull]
    · exact hread
  · simp only [postInitField]
    split
    · rfl
    · exact hkeep

lemma reads_ext (hE : E.RoundTrips) {k : κ} {x : ξ} (hx : E.isInstance k x = true) :
    Reads E (.item (.program k)) (.ext x) ∧ Reads E (.item (.element k)) (.ext x) := by
  have hread := hE k x hx
  unfold JsonTypes.readBytes at hread
  have hkeep : castUnlessInstance E (.program k) (.ext x) = .ok (.ext x) ∧
      castUnlessInstance E (.element k) (.ext x) = .ok (.ext x) := by
    simp [castUnlessInstance, isInstance, hx]
  simp only [Reads, fromDictField, fromDictItem, dispatchFromDict, jsonTests, recurseJsonify, hexOf,
    Bool.false_eq_true, if_false, if_true, postInitField, postInitItem, hkeep, and_true]
  cases hbytes : E.isBytesSubclass k with
  | true =>
    rw [hbytes, if_pos rfl] at hread
    simp [hexstrToBytes_hexText, bytesSubclass, hread, Except.map]
  | false =>
    rw [hbytes, if_neg Bool.false_ne_true] at hread
    cases hunchecked : E.fromBytesUnchecked k with
    | some f =>
      simp only [hunchecked] at hread
      simp [hexstrToBytes_hexText, unhashable, hunchecked, hread, Except.map]
    | none =>
      simp only [hunchecked] at hread
      simp [hexstrToBytes_hexText, unhashable, hunchecked, hread, Except.map]

end Fields

mutual

variable {E : JsonTypes κ ξ}

lemma reads_field (hE : E.RoundTrips) : ∀ {t : FieldType κ} {v : PyValue ξ},
    t.Declared E → t.IsValue E v → Reads E t v
  | .item t, v, hd, hv => by
    simp only [FieldType.Declared] at hd
    simp only [FieldType.IsValue] at hv
    exact reads_item hE hd hv
  | .optional t, v, hd, hv => by
    simp only [FieldType.Declared] at hd
    simp only [FieldType.IsValue] at hv
    rcases hv with rfl | hv
    · simp [Reads, fromDictField, dispatchFromDict, jsonTests, recurseJsonify, postInitField]
    · exact reads_optional (reads_item hE hd hv)

/-- An item type reads its values from what they are written as.

**Proof sketch.** Induction over the grammar. The value says which branch of `recurse_jsonify` wrote it,
the type which branch of `dataclass_from_dict` reads it, and for a value of the type the second is the
inverse of the first. -/
lemma reads_item (hE : E.RoundTrips) : ∀ {t : ItemType κ} {v : PyValue ξ},
    t.Declared E → t.IsValue E v → Reads E (.item t) v
  | .int c, v, _, hv => by
    simp only [ItemType.IsValue] at hv
    obtain ⟨n, rfl, hn⟩ := hv
    simp [Reads, fromDictField, fromDictItem, dispatchFromDict, jsonTests, recurseJsonify, primitive,
      postInitField, postInitItem, castUnlessInstance, isInstance, SizedInt.new, hn, Except.map]
  | .bool, v, _, hv => by
    simp only [ItemType.IsValue] at hv
    obtain ⟨b, rfl⟩ := hv
    simp [Reads, fromDictField, fromDictItem, dispatchFromDict, jsonTests, recurseJsonify, primitive,
      postInitField, postInitItem, castUnlessInstance, isInstance]
  | .sizedBytes size, v, _, hv => by
    simp only [ItemType.IsValue] at hv
    obtain ⟨b, rfl, hb⟩ := hv
    simp [Reads, fromDictField, fromDictItem, dispatchFromDict, jsonTests, recurseJsonify, hexOf,
      hexstrToBytes_hexText, bytesSubclass, postInitField, postInitItem, castUnlessInstance, isInstance,
      hb]
  | .bytes, v, _, hv => by
    simp only [ItemType.IsValue] at hv
    obtain ⟨b, rfl⟩ := hv
    simp [Reads, fromDictField, fromDictItem, dispatchFromDict, jsonTests, recurseJsonify, hexOf,
      hexstrToBytes_hexText, bytesSubclass, postInitField, postInitItem, castUnlessInstance, isInstance]
  | .str, v, _, hv => by
    simp only [ItemType.IsValue] at hv
    obtain ⟨s, rfl⟩ := hv
    simp [Reads, fromDictField, fromDictItem, dispatchFromDict, jsonTests, recurseJsonify, primitive,
      postInitField, postInitItem, castUnlessInstance, isInstance]
  | .list t, v, hd, hv => by
    simp only [ItemType.Declared] at hd
    simp only [ItemType.IsValue] at hv
    obtain ⟨vs, rfl, hvs⟩ := hv
    exact reads_list fun w hw => reads_field hE hd (hvs w hw)
  | .tuple ts, v, hd, hv => by
    simp only [ItemType.Declared] at hd
    simp only [ItemType.IsValue] at hv
    obtain ⟨vs, rfl, hvs⟩ := hv
    exact (allRead_fields hE hd hvs).tuple
  | .streamable cls ts, v, hd, hv => by
    simp only [ItemType.Declared] at hd
    simp only [ItemType.IsValue] at hv
    obtain ⟨vs, rfl, hvs⟩ := hv
    exact (allRead_fields hE hd.2.2 hvs).streamable hd.1 hd.2.1
  | .program k, v, _, hv => by
    simp only [ItemType.IsValue] at hv
    obtain ⟨x, rfl, hx⟩ := hv
    exact (reads_ext hE hx).1
  | .element k, v, _, hv => by
    simp only [ItemType.IsValue] at hv
    obtain ⟨x, rfl, hx⟩ := hv
    exact (reads_ext hE hx).2

lemma allRead_fields (hE : E.RoundTrips) :
    ∀ {ts : List (FieldType κ)} {vs : List (PyValue ξ)}, FieldType.AllDeclared E ts →
      FieldType.AreValues E ts vs → AllRead E ts vs
  | [], vs, _, hvs => by
    simp only [FieldType.AreValues] at hvs
    subst hvs
    exact .nil
  | t :: ts, vs, hd, hvs => by
    simp only [FieldType.AllDeclared] at hd
    simp only [FieldType.AreValues] at hvs
    obtain ⟨w, ws, rfl, hw, hws⟩ := hvs
    exact .cons (reads_field hE hd.1 hw) (allRead_fields hE hd.2 hws)

end

/-! ## The round trip -/

/-- **JSON round trip.** For a class with any fields, to any depth: an object of the class is read back
from its dictionary, provided that values of other packages round trip through their bytes. -/
theorem fromJsonDict_toJsonDict {E : JsonTypes κ ξ} (hE : E.RoundTrips) (cls : String)
    (fields : List (FieldType κ)) (hd : ItemType.Declared E (.streamable cls fields)) (v : PyValue ξ)
    (hv : ItemType.IsValue E (.streamable cls fields) v) :
    fromJsonDict E cls fields (toJsonDict E v) = .ok v := by
  have h := (reads_item hE hd hv).1
  rwa [fromDictField] at h

/-- Classes with two fields each, and one external type: a byte as a code. -/
def sampleJsonTypes : JsonTypes Unit UInt8 where
  fieldNames cls := if cls = "Outer" then ["inner", "codes"] else ["amount", "hash"]
  isBytesSubclass _ := false
  construct _ _ := .error .typeError
  fromBytesUnchecked _ := none
  fromBytes _ b := match b with
    | [x] => .ok x
    | _ => .error .valueError
  toBytes x := [x]
  isInstance _ _ := true
  castJson _ _ := .error .typeError
  castField _ _ := .error .typeError

/-- An object with a nested object, a missing hash and a tuple with a list of codes survives the trip. -/
theorem fromJsonDict_toJsonDict_sample :
    let fields : List (FieldType Unit) := [.item (.streamable "Inner" [.item (.int .uint128),
      .optional (.sizedBytes 2)]), .item (.tuple [.item .bool, .item (.list (.item (.element ())))])]
    let v : PyValue UInt8 := .obj "Outer" [.obj "Inner" [.int (2 ^ 100), .none],
      .tuple [.bool true, .list [.ext 3, .ext 255]]]
    fromJsonDict sampleJsonTypes "Outer" fields (toJsonDict sampleJsonTypes v) = .ok v := by
  intro fields v
  refine fromJsonDict_toJsonDict ?_ "Outer" fields ?_ v ?_
  · intro k x _
    rfl
  · simp [fields, ItemType.Declared, FieldType.AllDeclared, FieldType.Declared, sampleJsonTypes]
  · simp [fields, v, ItemType.IsValue, FieldType.AreValues, FieldType.IsValue, SizedInt.InRange,
      SizedInt.MINIMUM, SizedInt.MAXIMUM_EXCLUSIVE, SizedInt.SIGNED, SizedInt.BITS, sampleJsonTypes]

end Streamable

end Chives
