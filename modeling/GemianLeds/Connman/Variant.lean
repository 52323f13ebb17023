import Mathlib.Data.List.Basic

/-! The values that D-Bus messages carry: each has a type, which its type string spells, and
is read by a format string of that type. -/
namespace GemianLeds

/-- The types of a `GVariant`. -/
inductive GVariantType where
  | boolean
  | byte
  | int16
  | uint16
  | int32
  | uint32
  | int64
  | uint64
  | handle
  | double
  | string
  | objectPath
  | signature
  | variant
  | maybe (element : GVariantType)
  | array (element : GVariantType)
  | tuple (items : List GVariantType)
  | dictEntry (key value : GVariantType)

namespace GVariantType

mutual

/-- `g_variant_get_type_string`, of a value of this type. -/
def typeString : GVariantType → List Char
  | .boolean => ['b']
  | .byte => ['y']
  | .int16 => ['n']
  | .uint16 => ['q']
  | .int32 => ['i']
  | .uint32 => ['u']
  | .int64 => ['x']
  | .uint64 => ['t']
  | .handle => ['h']
  | .double => ['d']
  | .string => ['s']
  | .objectPath => ['o']
  | .signature => ['g']
  | .variant => ['v']
  | .maybe element => 'm' :: element.typeString
  | .array element => 'a' :: element.typeString
  | .tuple items => '(' :: typeStrings items ++ [')']
  | .dictEntry key value => '{' :: key.typeString ++ value.typeString ++ ['}']

def typeStrings : List GVariantType → List Char
  | [] => []
  | item :: items => item.typeString ++ typeStrings items

end

theorem typeString_ne_nil (t : GVariantType) : t.typeString ≠ [] := by
  cases t <;> simp [typeString]

theorem eq_string_of_typeString {t : GVariantType} (h : t.typeString = ['s']) : t = .string := by
  cases t <;> simp [typeString] at h ⊢

/-- The type string `(s)` is that of one type only. -/
theorem typeString_eq_s {t : GVariantType} :
    t.typeString = "(s)".toList ↔ t = .tuple [.string] := by
  constructor
  · intro h
    cases t with
    | tuple items =>
      have hitems : typeStrings items = ['s'] := by
        have happend : typeStrings items ++ [')'] = ['s'] ++ [')'] := by
          simpa [typeString] using h
        exact List.append_cancel_right happend
      cases items with
      | nil => simp [typeStrings] at hitems
      | cons item items =>
        rw [typeStrings, List.append_eq_singleton_iff] at hitems
        rcases hitems with ⟨hnil, -⟩ | ⟨hitem, hrest⟩
        · exact absurd hnil item.typeString_ne_nil
        · rw [eq_string_of_typeString hitem]
          cases items with
          | nil => rfl
          | cons next items =>
            rw [typeStrings, List.append_eq_nil_iff] at hrest
            exact absurd hrest.1 next.typeString_ne_nil
    | _ => simp [typeString] at h
  · rintro rfl
    rfl

end GVariantType

mutual

/-- The values of a type. -/
inductive GValue : GVariantType → Type where
  | boolean (b : Bool) : GValue .boolean
  | byte (n : UInt8) : GValue .byte
  | int16 (n : Int16) : GValue .int16
  | uint16 (n : UInt16) : GValue .uint16
  | int32 (n : Int32) : GValue .int32
  | uint32 (n : UInt32) : GValue .uint32
  | int64 (n : Int64) : GValue .int64
  | uint64 (n : UInt64) : GValue .uint64
  | handle (n : Int32) : GValue .handle
  | double (bits : UInt64) : GValue .double
  | string (s : String) : GValue .string
  | objectPath (s : String) : GValue .objectPath
  | signature (s : String) : GValue .signature
  | variant {t : GVariantType} (v : GValue t) : GValue .variant
  | nothing {t : GVariantType} : GValue (.maybe t)
  | just {t : GVariantType} (v : GValue t) : GValue (.maybe t)
  | array {t : GVariantType} (vs : GElements t) : GValue (.array t)
  | tuple {ts : List GVariantType} (vs : GItems ts) : GValue (.tuple ts)
  | dictEntry {k t : GVariantType} (key : GValue k) (v : GValue t) : GValue (.dictEntry k t)

/-- The elements of an array. -/
inductive GElements : GVariantType → Type where
  | nil {t : GVariantType} : GElements t
  | cons {t : GVariantType} (v : GValue t) (vs : GElements t) : GElements t

/-- The items of a tuple. -/
inductive GItems : List GVariantType → Type where
  | nil : GItems []
  | cons {t : GVariantType} {ts : List GVariantType} (v : GValue t) (vs : GItems ts) :
      GItems (t :: ts)

end

/-- A value with its type, as `GVariant *` points to. -/
structure GVariant where
  type : GVariantType
  value : GValue type

/-! What a format string reads from a value of its type. -/

def GValue.b : GValue .boolean → Bool
  | .boolean b => b

def GItems.s : GItems [.string] → String
  | .cons (.string s) .nil => s

def GItems.sv : GItems [.string, .variant] → String × GVariant
  | .cons (.string s) (.cons (.variant v) .nil) => (s, ⟨_, v⟩)

def GElements.toList {t : GVariantType} : GElements t → List (GValue t)
  | .nil => []
  | .cons v vs => v :: vs.toList

/-- What an iterator yields with the format string `{&sv}`. -/
def GValue.entry : GValue (.dictEntry .string .variant) → String × GVariant
  | .dictEntry (.string s) (.variant v) => (s, ⟨_, v⟩)

def GItems.asv : GItems [.array (.dictEntry .string .variant)] → List (String × GVariant)
  | .cons (.array vs) .nil => vs.toList.map GValue.entry

namespace GVariant

/-- `g_variant_get` with the format string `b`: without a result, when the value has another
type. -/
def getBoolean : GVariant → Option Bool
  | ⟨.boolean, v⟩ => some v.b
  | _ => none

/-- With the format string `(s)`. -/
def getString : GVariant → Option String
  | ⟨.tuple [.string], .tuple vs⟩ => some vs.s
  | _ => none

/-- With the format string `(sv)`. -/
def getStringVariant : GVariant → Option (String × GVariant)
  | ⟨.tuple [.string, .variant], .tuple vs⟩ => some vs.sv
  | _ => none

/-- With the format string `(a{sv})`. -/
def getProperties : GVariant → Option (List (String × GVariant))
  | ⟨.tuple [.array (.dictEntry .string .variant)], .tuple vs⟩ => some vs.asv
  | _ => none

theorem getBoolean_isSome (v : GVariant) : v.getBoolean.isSome ↔ v.type = .boolean := by
  constructor
  · intro h
    unfold getBoolean at h
    split at h
    next => rfl
    next => cases h
  · intro h
    obtain ⟨t, v⟩ := v
    obtain rfl := h
    rfl

theorem getString_isSome (v : GVariant) : v.getString.isSome ↔ v.type = .tuple [.string] := by
  constructor
  · intro h
    unfold getString at h
    split at h
    next => rfl
    next => cases h
  · intro h
    obtain ⟨t, v⟩ := v
    obtain rfl := h
    cases v
    rfl

theorem getStringVariant_isSome (v : GVariant) :
    v.getStringVariant.isSome ↔ v.type = .tuple [.string, .variant] := by
  constructor
  · intro h
    unfold getStringVariant at h
    split at h
    next => rfl
    next => cases h
  · intro h
    obtain ⟨t, v⟩ := v
    obtain rfl := h
    cases v
    rfl

theorem getProperties_isSome (v : GVariant) :
    v.getProperties.isSome ↔ v.type = .tuple [.array (.dictEntry .string .variant)] := by
  constructor
  · intro h
    unfold getProperties at h
    split at h
    next => rfl
    next => cases h
  · intro h
    obtain ⟨t, v⟩ := v
    obtain rfl := h
    cases v
    rfl

/-- The parameters of a signal that names one property. -/
def ofEntry (entry : String × GVariant) : GVariant :=
  ⟨.tuple [.string, .variant],
    .tuple (.cons (.string entry.1) (.cons (.variant entry.2.value) .nil))⟩

def ofList {t : GVariantType} : List (GValue t) → GElements t
  | [] => .nil
  | v :: vs => .cons v (ofList vs)

/-- The body of a reply that lists properties. -/
def ofProperties (entries : List (String × GVariant)) : GVariant :=
  ⟨.tuple [.array (.dictEntry .string .variant)],
    .tuple (.cons (.array (ofList (entries.map fun entry =>
      .dictEntry (.string entry.1) (.variant entry.2.value)))) .nil)⟩

theorem getStringVariant_ofEntry (entry : String × GVariant) :
    (ofEntry entry).getStringVariant = some entry := rfl

theorem toList_ofList {t : GVariantType} (vs : List (GValue t)) : (ofList vs).toList = vs := by
  induction vs with
  | nil => rfl
  | cons v vs ih =>
    unfold ofList GElements.toList
    rw [ih]

theorem getProperties_ofProperties (entries : List (String × GVariant)) :
    (ofProperties entries).getProperties = some entries := by
  change some (List.map GValue.entry (ofList _).toList) = _
  rw [toList_ofList, List.map_map]
  exact congrArg some (List.map_id entries)

end GVariant
end GemianLeds
