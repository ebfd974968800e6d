import AcpAgent.Lib.Json
import Mathlib.Data.Char
import Mathlib.Data.List.Lex

/-! The representations that `serde` documents for structs and enumerations in JSON: fields by name
in any order or one after the other in an array, defaults, optional fields, the content of a tagged
variant, and values of which no more is known. -/

namespace Serde

variable {α : Type}

/-- The members of an object, or the fields of a struct that is an array.  A struct takes those with
the names of its fields and ignores the others. -/
abbrev Members := List (Str × Json)

/-- The value of a field, if there is one.  A field must not occur twice. -/
def lookup (key : Str) (members : Members) : Option (Option Json) :=
  match members.filter fun member => member.1 = key with
  | [] => some none
  | [(_, value)] => some (some value)
  | _ => none

def required (key : Str) (decode : Json → Option α) (members : Members) : Option α := do
  match ← lookup key members with
  | some value => decode value
  | none => none

/-- A field with `#[serde(default)]`. -/
def defaulted (key : Str) (default : α) (decode : Json → Option α) (members : Members) :
    Option α := do
  match ← lookup key members with
  | some value => decode value
  | none => some default

/-- A field of an `Option` type. -/
def nullable (key : Str) (decode : Json → Option α) (members : Members) : Option (Option α) := do
  match ← lookup key members with
  | some .null | none => some none
  | some value => (decode value).map some

/-- A field of an `Option` type that is skipped if it is `None`. -/
def skipNone (key : Str) (encode : α → Json) : Option α → Members
  | some value => [(key, encode value)]
  | none => []

/-! ### Values -/

def asString : Json → Option Str
  | .string s => some s
  | _ => none

def asBool : Json → Option Bool
  | .bool b => some b
  | _ => none

def asUInt16 : Json → Option UInt16
  | .number n => if n < UInt16.size then some (.ofNat n) else none
  | _ => none

def asUInt32 : Json → Option UInt32
  | .number n => if n < UInt32.size then some (.ofNat n) else none
  | _ => none

def asUInt64 : Json → Option UInt64
  | .number n => if n < UInt64.size then some (.ofNat n) else none
  | _ => none

def asArray (decode : Json → Option α) : Json → Option (List α)
  | .array items => items.mapM decode
  | _ => none

def asObject (decode : Members → Option α) : Json → Option α
  | .object members => decode members
  | _ => none

mutual

/-- How deep arrays and objects are nested in a value. -/
def depth : Json → ℕ
  | .array items => depthItems items + 1
  | .object members => depthMembers members + 1
  | _ => 0

def depthItems : List Json → ℕ
  | [] => 0
  | item :: items => max (depth item) (depthItems items)

def depthMembers : List (Str × Json) → ℕ
  | [] => 0
  | (_, value) :: members => max (depth value) (depthMembers members)

end

/-- `insert` into the map of a `Value`: a key keeps its first place and has its last value. -/
def setMember (key : Str) (value : Json) : Members → Members
  | [] => [(key, value)]
  | (other, found) :: members =>
    if other = key then (key, value) :: members else (other, found) :: setMember key value members

section Values

/-! What `serde_json` writes for a number that it has read as an `f64`, unless it is too large. -/

variable (float : Str → Option Json.Decimal)

mutual

/-- A `Value`: a number that is no 64-bit integer is an `f64`. -/
def toValue : Json → Option Json
  | .null => some .null
  | .bool b => some (.bool b)
  | .number n =>
    if n < 2 ^ 64 then some (.number n) else (float (Nat.toDigits 10 n)).map .decimal
  | .negative n =>
    if n < 2 ^ 63 then some (.negative n)
    else (float ('-' :: Nat.toDigits 10 (n + 1))).map .decimal
  | .decimal d => (float d.text).map .decimal
  | .string s => some (.string s)
  | .array items => (toValues items).map .array
  | .object members => (toMap members []).map .object
  | .unreadable => none

def toValues : List Json → Option (List Json)
  | [] => some []
  | item :: items => do some ((← toValue item) :: (← toValues items))

def toMap : Members → Members → Option Members
  | [], map => some map
  | (key, value) :: members, map => do toMap members (setMember key (← toValue value) map)

end

/-- A `Value`, within what is left of the nesting that the parser allows. -/
def asValue (remaining : ℕ) (json : Json) : Option Json :=
  if depth json ≤ remaining then toValue float json else none

/-- An object or array at the top whose contents are kept until it is known what they are.  The parser
allows 127 levels. -/
def buffered (json : Json) : Bool := (asValue float 127 json).isSome

end Values

/-- A struct with these fields, as an object or as an array, of which it needs at least so many. -/
def asStruct (fields : List Str) (least : ℕ) (decode : Members → Option α) : Json → Option α
  | .object members => decode members
  | .array items =>
    if least ≤ items.length ∧ items.length ≤ fields.length then decode (fields.zip items) else none
  | _ => none

/-- The name of a unit variant: a string, or the key of an object with an empty content. -/
def variantName : Json → Option Str
  | .string s | .object [(s, .null)] | .object [(s, .object [])] => some s
  | _ => none

/-- A unit variant of an enumeration, by its name. -/
def asVariant (variants : List α) (name : α → Str) (json : Json) : Option α := do
  let s ← variantName json
  variants.find? fun variant => name variant = s

/-- The content of a unit variant is absent or null. -/
def unitContent : Option Json → Option Unit
  | none | some .null => some ()
  | _ => none

/-- A variant with one struct of an adjacently tagged enumeration. -/
def tagged (tag content name : Str) (members : Members) : Members :=
  [(tag, .string name), (content, .object members)]

@[simp] theorem asString_string (s : Str) : asString (.string s) = some s := rfl

@[simp] theorem asBool_bool (b : Bool) : asBool (.bool b) = some b := rfl

@[simp] theorem asUInt16_number (n : UInt16) : asUInt16 (.number n.toNat) = some n := by
  simp [asUInt16, n.toNat_lt_size]

@[simp] theorem asUInt32_number (n : UInt32) : asUInt32 (.number n.toNat) = some n := by
  simp [asUInt32, n.toNat_lt_size]

@[simp] theorem asUInt64_number (n : UInt64) : asUInt64 (.number n.toNat) = some n := by
  simp [asUInt64, n.toNat_lt_size]

@[simp] theorem asObject_object (decode : Members → Option α) (members : Members) :
    asObject decode (.object members) = decode members := rfl

theorem asArray_map_of_mem {decode : Json → Option α} {encode : α → Json} {items : List α}
    (h : ∀ a ∈ items, decode (encode a) = some a) :
    asArray decode (.array (items.map encode)) = some items := by
  rw [asArray]
  induction items with
  | nil => rfl
  | cons a items ih =>
    obtain ⟨here, rest⟩ := List.forall_mem_cons.mp h
    simp [here, ih rest]

/-- A list is read back if each item is. -/
theorem asArray_map {decode : Json → Option α} {encode : α → Json}
    (h : ∀ a, decode (encode a) = some a) (items : List α) :
    asArray decode (.array (items.map encode)) = some items :=
  asArray_map_of_mem fun a _ => h a

@[simp] theorem asArray_string (items : List Str) :
    asArray asString (.array (items.map .string)) = some items :=
  asArray_map asString_string items

@[simp] theorem asStruct_object (fields : List Str) (least : ℕ) (decode : Members → Option α)
    (members : Members) : asStruct fields least decode (.object members) = decode members := rfl

@[simp] theorem variantName_string (s : Str) : variantName (.string s) = some s := rfl

/-! ### What is known of a decoded value -/

section Decoded

variable {P : α → Prop}

theorem of_required {key : Str} {decode : Json → Option α} {members : Members} {a : α}
    (read : ∀ json a, decode json = some a → P a) (h : required key decode members = some a) :
    P a := by
  obtain ⟨value, -, h⟩ := Option.bind_eq_some_iff.mp h
  cases value with
  | none => exact nomatch h
  | some json => exact read json a h

theorem of_nullable {key : Str} {decode : Json → Option α} {members : Members} {value : Option α}
    (read : ∀ json a, decode json = some a → P a) (h : nullable key decode members = some value) :
    ∀ a ∈ value, P a := by
  obtain ⟨found, -, h⟩ := Option.bind_eq_some_iff.mp h
  rintro a rfl
  match found, h with
  | some (.bool _), h | some (.number _), h | some (.negative _), h | some (.decimal _), h
  | some (.string _), h | some (.array _), h | some (.object _), h | some .unreadable, h =>
    obtain ⟨b, decoded, same⟩ := Option.map_eq_some_iff.mp h
    obtain rfl := Option.some.inj same
    exact read _ b decoded

theorem of_asArray {decode : Json → Option α} {json : Json} {values : List α}
    (read : ∀ json a, decode json = some a → P a) (h : asArray decode json = some values) :
    ∀ a ∈ values, P a := by
  cases json with
  | array items =>
    rw [asArray] at h
    induction items generalizing values with
    | nil =>
      cases h
      exact fun a member => absurd member List.not_mem_nil
    | cons item items ih =>
      rw [List.mapM_cons] at h
      obtain ⟨first, here, h⟩ := Option.bind_eq_some_iff.mp h
      obtain ⟨others, rest, h⟩ := Option.bind_eq_some_iff.mp h
      cases h
      exact List.forall_mem_cons.mpr ⟨read item first here, ih rest⟩
  | _ => exact nomatch h

theorem of_asStruct {fields : List Str} {least : ℕ} {decode : Members → Option α} {json : Json}
    {a : α} (read : ∀ members a, decode members = some a → P a)
    (h : asStruct fields least decode json = some a) : P a := by
  cases json with
  | object members => exact read members a h
  | array items =>
    rw [asStruct] at h
    split_ifs at h
    exact read _ a h
  | _ => exact nomatch h

end Decoded

/-! ### What is known of a `Value` -/

section Value

variable (P : Json.Decimal → Prop)

mutual

/-- All its integers have 64 bits, all other numbers are such, and no key occurs twice. -/
def IsValue : Json → Prop
  | .number n => n < 2 ^ 64
  | .negative n => n < 2 ^ 63
  | .decimal d => P d
  | .array items => AreValues items
  | .object members => (members.map Prod.fst).Nodup ∧ IsMap members
  | .unreadable => False
  | _ => True

def AreValues : List Json → Prop
  | [] => True
  | item :: items => IsValue item ∧ AreValues items

def IsMap : Members → Prop
  | [] => True
  | (_, value) :: members => IsValue value ∧ IsMap members

end

variable {P} {float : Str → Option Json.Decimal} {key : Str} {value : Json} {map : Members}

theorem mem_setMember {member : Str × Json} (h : member ∈ setMember key value map) :
    member = (key, value) ∨ member ∈ map := by
  induction map with
  | nil => exact .inl (List.mem_singleton.mp h)
  | cons first map ih =>
    obtain ⟨other, found⟩ := first
    rw [setMember] at h
    split_ifs at h
    · exact (List.mem_cons.mp h).imp_right (List.mem_cons_of_mem _)
    · rcases List.mem_cons.mp h with rfl | h
      · exact .inr List.mem_cons_self
      · exact (ih h).imp_right (List.mem_cons_of_mem _)

theorem nodup_setMember (h : (map.map Prod.fst).Nodup) :
    ((setMember key value map).map Prod.fst).Nodup := by
  induction map with
  | nil => exact List.pairwise_singleton ..
  | cons first map ih =>
    obtain ⟨other, found⟩ := first
    obtain ⟨fresh, rest⟩ := List.nodup_cons.mp h
    rw [setMember]
    split_ifs with same
    · subst same
      exact h
    · refine List.nodup_cons.mpr ⟨fun again => ?_, ih rest⟩
      obtain ⟨member, there, eq⟩ := List.mem_map.mp again
      rcases mem_setMember there with rfl | there
      · exact same eq.symm
      · exact fresh (List.mem_map.mpr ⟨member, there, eq⟩)

/-- A new key comes last. -/
theorem setMember_new (h : key ∉ map.map Prod.fst) :
    setMember key value map = map ++ [(key, value)] := by
  induction map with
  | nil => rfl
  | cons first map ih =>
    obtain ⟨other, found⟩ := first
    rw [List.map_cons, List.mem_cons, not_or] at h
    rw [setMember, if_neg (Ne.symm h.1), ih h.2, List.cons_append]

theorem isMap_iff {members : Members} : IsMap P members ↔ ∀ member ∈ members, IsValue P member.2 := by
  induction members with
  | nil => simp [IsMap]
  | cons member members ih => simp [IsMap, ih]

theorem depthMembers_le_iff {members : Members} {n : ℕ} :
    depthMembers members ≤ n ↔ ∀ member ∈ members, depth member.2 ≤ n := by
  induction members with
  | nil => simp [depthMembers]
  | cons member members ih => simp [depthMembers, ih]

mutual

/-- A `Value` is read as it is, if its numbers are. -/
theorem toValue_of_isValue : ∀ json, IsValue (fun d => float d.text = some d) json →
    toValue float json = some json
  | .null, _ | .bool _, _ | .string _, _ => by rw [toValue]
  | .number n, h | .negative n, h => by
    rw [IsValue] at h
    rw [toValue, if_pos h]
  | .decimal d, h => by
    rw [IsValue] at h
    rw [toValue, h, Option.map_some]
  | .array items, h => by
    rw [IsValue] at h
    rw [toValue, toValues_of_areValues items h, Option.map_some]
  | .object members, h => by
    rw [IsValue] at h
    have read := toMap_of_isMap members [] h.2 h.1
    rw [toValue, read, Option.map_some, List.nil_append]
  | .unreadable, h => by
    rw [IsValue] at h
    exact h.elim

theorem toValues_of_areValues : ∀ items, AreValues (fun d => float d.text = some d) items →
    toValues float items = some items
  | [], _ => by rw [toValues]
  | item :: items, h => by
    rw [AreValues] at h
    rw [toValues, toValue_of_isValue item h.1, toValues_of_areValues items h.2]
    rfl

theorem toMap_of_isMap : ∀ members before, IsMap (fun d => float d.text = some d) members →
    ((before ++ members).map Prod.fst).Nodup →
    toMap float members before = some (before ++ members)
  | [], before, _, _ => by rw [toMap, List.append_nil]
  | (key, value) :: members, before, h, distinct => by
    rw [IsMap] at h
    have new : key ∉ before.map Prod.fst := by
      rw [List.map_append, List.map_cons] at distinct
      intro again
      exact (List.nodup_append.mp distinct).2.2 key again key List.mem_cons_self rfl
    have read := toMap_of_isMap members (before ++ [(key, value)]) h.2 (by simpa using distinct)
    rw [toMap, toValue_of_isValue value h.1]
    simp only [Option.bind_eq_bind, Option.bind_some]
    rw [setMember_new new, read, List.append_assoc, List.singleton_append]

end

mutual

/-- What is read is a `Value`, and nested no deeper than its text. -/
theorem isValue_of_toValue : ∀ json value, toValue float json = some value →
    IsValue (fun d => ∃ s, float s = some d) value ∧ depth value ≤ depth json
  | .null, value, h | .bool _, value, h | .string _, value, h => by
    rw [toValue] at h
    obtain rfl := Option.some.inj h
    exact ⟨by rw [IsValue] <;> simp, le_rfl⟩
  | .number n, value, h | .negative n, value, h => by
    rw [toValue] at h
    split_ifs at h with small
    · obtain rfl := Option.some.inj h
      exact ⟨by rwa [IsValue], le_rfl⟩
    · obtain ⟨d, read, rfl⟩ := Option.map_eq_some_iff.mp h
      exact ⟨by rw [IsValue]; exact ⟨_, read⟩, le_rfl⟩
  | .decimal d, value, h => by
    rw [toValue] at h
    obtain ⟨d, read, rfl⟩ := Option.map_eq_some_iff.mp h
    exact ⟨by rw [IsValue]; exact ⟨_, read⟩, le_rfl⟩
  | .array items, value, h => by
    rw [toValue] at h
    obtain ⟨values, read, rfl⟩ := Option.map_eq_some_iff.mp h
    obtain ⟨are, shallow⟩ := areValues_of_toValues items values read
    rw [IsValue, depth, depth]
    exact ⟨are, by omega⟩
  | .object members, value, h => by
    rw [toValue] at h
    obtain ⟨map, read, rfl⟩ := Option.map_eq_some_iff.mp h
    obtain ⟨distinct, are, shallow⟩ := isMap_of_toMap members [] map read List.nodup_nil
      (by rw [IsMap]; trivial)
    rw [IsValue, depth, depth]
    rw [depthMembers] at shallow
    exact ⟨⟨distinct, are⟩, by omega⟩
  | .unreadable, value, h => by
    rw [toValue] at h
    exact nomatch h

theorem areValues_of_toValues : ∀ items values, toValues float items = some values →
    AreValues (fun d => ∃ s, float s = some d) values ∧ depthItems values ≤ depthItems items
  | [], values, h => by
    rw [toValues] at h
    obtain rfl := Option.some.inj h
    exact ⟨by rw [AreValues]; trivial, le_rfl⟩
  | item :: items, values, h => by
    rw [toValues] at h
    obtain ⟨first, here, h⟩ := Option.bind_eq_some_iff.mp h
    obtain ⟨others, rest, h⟩ := Option.bind_eq_some_iff.mp h
    obtain rfl := Option.some.inj h
    obtain ⟨is, shallow⟩ := isValue_of_toValue item first here
    obtain ⟨are, shallows⟩ := areValues_of_toValues items others rest
    rw [AreValues, depthItems, depthItems]
    exact ⟨⟨is, are⟩, by omega⟩

theorem isMap_of_toMap : ∀ members before map, toMap float members before = some map →
    (before.map Prod.fst).Nodup → IsMap (fun d => ∃ s, float s = some d) before →
    (map.map Prod.fst).Nodup ∧ IsMap (fun d => ∃ s, float s = some d) map ∧
      depthMembers map ≤ max (depthMembers before) (depthMembers members)
  | [], before, map, h, distinct, are => by
    rw [toMap] at h
    obtain rfl := Option.some.inj h
    exact ⟨distinct, are, le_max_left ..⟩
  | (key, value) :: members, before, map, h, distinct, are => by
    rw [toMap] at h
    obtain ⟨read, here, h⟩ := Option.bind_eq_some_iff.mp h
    obtain ⟨is, shallow⟩ := isValue_of_toValue value read here
    have next : IsMap (fun d => ∃ s, float s = some d) (setMember key read before) := by
      refine isMap_iff.mpr fun member there => ?_
      rcases mem_setMember there with rfl | there
      · exact is
      · exact isMap_iff.mp are member there
    have deep : depthMembers (setMember key read before) ≤ max (depthMembers before) (depth value) := by
      refine depthMembers_le_iff.mpr fun member there => ?_
      rcases mem_setMember there with rfl | there
      · exact le_max_of_le_right shallow
      · exact le_max_of_le_left (depthMembers_le_iff.mp le_rfl member there)
    obtain ⟨distinct, are, shallows⟩ := isMap_of_toMap members _ map h (nodup_setMember distinct) next
    rw [depthMembers]
    exact ⟨distinct, are, by omega⟩

end

theorem asValue_of_isValue {remaining : ℕ} {json : Json}
    (h : IsValue (fun d => float d.text = some d) json) (shallow : depth json ≤ remaining) :
    asValue float remaining json = some json := by
  rw [asValue, if_pos shallow, toValue_of_isValue json h]

theorem areValues_iff {items : List Json} : AreValues P items ↔ ∀ item ∈ items, IsValue P item := by
  induction items with
  | nil => simp [AreValues]
  | cons item items ih => simp [AreValues, ih]

theorem depthItems_le_iff {items : List Json} {n : ℕ} :
    depthItems items ≤ n ↔ ∀ item ∈ items, depth item ≤ n := by
  induction items with
  | nil => simp [depthItems]
  | cons item items ih => simp [depthItems, ih]

theorem buffered_of_isValue {json : Json} (h : IsValue (fun d => float d.text = some d) json)
    (shallow : depth json ≤ 127) : buffered float json = true := by
  rw [buffered, asValue_of_isValue h shallow]
  rfl

theorem of_asValue {remaining : ℕ} {json value : Json}
    (h : asValue float remaining json = some value) :
    IsValue (fun d => ∃ s, float s = some d) value ∧ depth value ≤ remaining := by
  rw [asValue] at h
  split_ifs at h with shallow
  obtain ⟨is, deep⟩ := isValue_of_toValue json value h
  exact ⟨is, deep.trans shallow⟩

end Value

/-! ### Maps -/

section Maps

variable {κ : Type} [LinearOrder κ] {map : List (κ × α)}

/-- `insert` into a `BTreeMap`, as the list of its entries in the order of their keys. -/
def mapInsert (key : κ) (value : α) : List (κ × α) → List (κ × α)
  | [] => [(key, value)]
  | (other, found) :: map =>
    if key < other then (key, value) :: (other, found) :: map
    else if key = other then (key, value) :: map
    else (other, found) :: mapInsert key value map

/-- The entries are in the order of their keys, which are different. -/
def Ordered (map : List (κ × α)) : Prop := map.Pairwise fun a b => a.1 < b.1

theorem mem_mapInsert {key : κ} {value : α} {entry : κ × α} (h : entry ∈ mapInsert key value map) :
    entry = (key, value) ∨ entry ∈ map := by
  induction map with
  | nil => exact .inl (List.mem_singleton.mp h)
  | cons first map ih =>
    obtain ⟨other, found⟩ := first
    rw [mapInsert] at h
    split_ifs at h
    · exact List.mem_cons.mp h
    · exact (List.mem_cons.mp h).imp_right (List.mem_cons_of_mem _)
    · rcases List.mem_cons.mp h with rfl | h
      · exact .inr List.mem_cons_self
      · exact (ih h).imp_right (List.mem_cons_of_mem _)

theorem Ordered.mapInsert (h : Ordered map) (key : κ) (value : α) :
    Ordered (mapInsert key value map) := by
  induction map with
  | nil => exact List.pairwise_singleton ..
  | cons first map ih =>
    obtain ⟨other, found⟩ := first
    obtain ⟨least, rest⟩ := List.pairwise_cons.mp h
    rw [Serde.mapInsert]
    split_ifs with less same
    · refine List.pairwise_cons.mpr ⟨fun entry member => ?_, h⟩
      rcases List.mem_cons.mp member with rfl | member
      · exact less
      · exact less.trans (least entry member)
    · subst same
      exact List.pairwise_cons.mpr ⟨least, rest⟩
    · refine List.pairwise_cons.mpr ⟨fun entry member => ?_, ih rest⟩
      rcases mem_mapInsert member with rfl | member
      · exact lt_of_le_of_ne (not_lt.mp less) (Ne.symm same)
      · exact least entry member

/-- A key that is larger than all others comes last. -/
theorem mapInsert_last {key : κ} (largest : ∀ entry ∈ map, entry.1 < key) (value : α) :
    mapInsert key value map = map ++ [(key, value)] := by
  induction map with
  | nil => rfl
  | cons first map ih =>
    obtain ⟨other, found⟩ := first
    obtain ⟨here, rest⟩ := List.forall_mem_cons.mp largest
    rw [mapInsert, if_neg here.not_gt, if_neg here.ne', ih rest, List.cons_append]

end Maps

/-- The members of an object as a map; a key that occurs twice has its last value. -/
def asMap (decode : Json → Option α) : Json → Option (List (Str × α))
  | .object members => members.foldlM (fun map member => do
      some (mapInsert member.1 (← decode member.2) map)) []
  | _ => none

theorem ordered_of_asMap {decode : Json → Option α} {json : Json} {map : List (Str × α)}
    (h : asMap decode json = some map) : Ordered map := by
  cases json with
  | object members =>
    have all : ∀ (members : Members) (first map : List (Str × α)), Ordered first →
        members.foldlM (fun map member => do
          some (mapInsert member.1 (← decode member.2) map)) first = some map → Ordered map := by
      intro members
      induction members with
      | nil =>
        rintro first map ordered ⟨⟩
        exact ordered
      | cons member members ih =>
        intro first map ordered h
        rw [List.foldlM_cons] at h
        obtain ⟨next, inserted, rest⟩ := Option.bind_eq_some_iff.mp h
        obtain ⟨value, -, same⟩ := Option.bind_eq_some_iff.mp inserted
        obtain rfl := Option.some.inj same
        exact ih _ map (ordered.mapInsert ..) rest
    exact all members [] map List.Pairwise.nil h
  | _ => exact nomatch h

/-- A map is read back if its values are. -/
theorem asMap_map {decode : Json → Option α} {encode : α → Json}
    (h : ∀ a, decode (encode a) = some a) {map : List (Str × α)} (ordered : Ordered map) :
    asMap decode (.object (map.map fun entry => (entry.1, encode entry.2))) = some map := by
  have all : ∀ before after : List (Str × α), Ordered (before ++ after) →
      (after.map fun entry => (entry.1, encode entry.2)).foldlM (fun map member => do
        some (mapInsert member.1 (← decode member.2) map)) before = some (before ++ after) := by
    intro before after
    induction after generalizing before with
    | nil => simp
    | cons entry after ih =>
      intro ordered
      have largest : ∀ other ∈ before, other.1 < entry.1 := fun other member =>
        (List.pairwise_append.mp ordered).2.2 other member entry List.mem_cons_self
      have next := ih (before ++ [entry]) (by simpa using ordered)
      simpa [h, mapInsert_last largest] using next
  exact all [] map ordered

end Serde
