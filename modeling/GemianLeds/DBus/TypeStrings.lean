import GemianLeds.Connman.Variant

/-! Type strings are read back: no type string begins another one, so that a type, or a list of
types, has a type string of its own. -/
namespace GemianLeds
namespace GVariantType

mutual

/-- The first type of a type string, and what comes after it; the number bounds the depth. -/
def scan : ℕ → List Char → Option (GVariantType × List Char)
  | 0, _ => none
  | _ + 1, [] => none
  | depth + 1, c :: cs =>
    match c with
    | 'b' => some (.boolean, cs)
    | 'y' => some (.byte, cs)
    | 'n' => some (.int16, cs)
    | 'q' => some (.uint16, cs)
    | 'i' => some (.int32, cs)
    | 'u' => some (.uint32, cs)
    | 'x' => some (.int64, cs)
    | 't' => some (.uint64, cs)
    | 'h' => some (.handle, cs)
    | 'd' => some (.double, cs)
    | 's' => some (.string, cs)
    | 'o' => some (.objectPath, cs)
    | 'g' => some (.signature, cs)
    | 'v' => some (.variant, cs)
    | 'm' => (scan depth cs).map fun x => (.maybe x.1, x.2)
    | 'a' => (scan depth cs).map fun x => (.array x.1, x.2)
    | '(' => (scanItems depth cs).map fun x => (.tuple x.1, x.2)
    | '{' =>
      (scan depth cs).bind fun key => (scan depth key.2).bind fun value =>
        if value.2.head? = some '}' then some (.dictEntry key.1 value.1, value.2.tail) else none
    | _ => none

/-- The types up to a closing parenthesis. -/
def scanItems : ℕ → List Char → Option (List GVariantType × List Char)
  | 0, _ => none
  | depth + 1, cs =>
    if cs.head? = some ')' then some ([], cs.tail)
    else
      (scan depth cs).bind fun item =>
        (scanItems depth item.2).map fun items => (item.1 :: items.1, items.2)

end

theorem typeString_head (t : GVariantType) (rest : List Char) :
    (t.typeString ++ rest).head? ≠ some ')' := by
  cases t <;> simp [typeString]

theorem length_typeString_pos (t : GVariantType) : 0 < t.typeString.length :=
  List.length_pos_iff.mpr t.typeString_ne_nil

mutual

theorem scan_typeString (t : GVariantType) (depth : ℕ) (rest : List Char)
    (h : t.typeString.length ≤ depth) : scan depth (t.typeString ++ rest) = some (t, rest) := by
  cases depth with
  | zero => exact absurd h (Nat.not_le.mpr t.length_typeString_pos)
  | succ depth =>
    cases t with
    | maybe element | array element =>
      have hrest := scan_typeString element depth rest (by simpa [typeString] using h)
      simp [typeString, scan, hrest]
    | tuple items =>
      have hrest := scanItems_typeStrings items depth rest (by simpa [typeString] using h)
      simp [typeString, scan, hrest]
    | dictEntry key value =>
      simp only [typeString, List.length_cons, List.length_append] at h
      have hkey := scan_typeString key depth (value.typeString ++ '}' :: rest) (by omega)
      have hvalue := scan_typeString value depth ('}' :: rest) (by omega)
      simp [typeString, scan, hkey, hvalue]
    | _ => simp [typeString, scan]

theorem scanItems_typeStrings (items : List GVariantType) (depth : ℕ) (rest : List Char)
    (h : (typeStrings items).length + 1 ≤ depth) :
    scanItems depth (typeStrings items ++ ')' :: rest) = some (items, rest) := by
  cases depth with
  | zero => cases h
  | succ depth =>
    cases items with
    | nil => simp [typeStrings, scanItems]
    | cons item items =>
      have hpos := item.length_typeString_pos
      simp only [typeStrings, List.length_append] at h
      have hitem := scan_typeString item depth (typeStrings items ++ ')' :: rest) (by omega)
      have hitems := scanItems_typeStrings items depth rest (by omega)
      have hhead := item.typeString_head (typeStrings items ++ ')' :: rest)
      rw [typeStrings, List.append_assoc, scanItems, if_neg hhead, hitem, Option.bind_some, hitems]
      rfl

end

/-- No type string begins another one. -/
theorem typeString_append_inj {t u : GVariantType} {rest rest' : List Char}
    (h : t.typeString ++ rest = u.typeString ++ rest') : t = u ∧ rest = rest' := by
  have ht := scan_typeString t (t.typeString.length + u.typeString.length) rest
    (Nat.le_add_right _ _)
  have hu := scan_typeString u (t.typeString.length + u.typeString.length) rest'
    (Nat.le_add_left _ _)
  rw [h, hu] at ht
  cases ht
  exact ⟨rfl, rfl⟩

theorem typeString_injective : Function.Injective typeString := by
  intro t u h
  have happend : t.typeString ++ [] = u.typeString ++ [] := congrArg (· ++ []) h
  exact (typeString_append_inj happend).1

end GVariantType
end GemianLeds
