import GemianLeds.DBus.TypeStrings
import GemianLeds.DBus.LEDs
import GemianLeds.Connman.Messages

/-! The calls that arrive on the bus: what the introspection data lets through, how the
parameters are unpacked, and how a client packs them. -/
namespace GemianLeds

/-- `leds_service_introspection`: the methods, each with the types of its arguments. -/
def ledsServiceIntrospection : List (String × List String) :=
  [("SetCapsLock", ["b"]),
    ("SetLEDBlockStep", ["u", "u", "u", "u"]),
    ("ClearLEDBlockAnimation", []),
    ("PushLEDBlockAnimation", []),
    ("SetTorch", ["b", "u"]),
    ("SetCall", ["b", "b"])]

/-- The type string of the parameters, put together from those of the arguments. -/
def completeSignature (args : List String) : List Char :=
  '(' :: args.flatMap String.toList ++ [')']

/-- A registered object is called for a method of its introspection data, with parameters of the
type given there; any other call is refused before it gets to the object. -/
def delivered (method_name : String) (parameters : GVariant) : Bool :=
  match ledsServiceIntrospection.lookup method_name with
  | none => false
  | some args => parameters.type.typeString = completeSignature args

/-! What a format string reads from the parameters. -/

def GValue.u : GValue .uint32 → UInt32
  | .uint32 n => n

def GItems.b : GItems [.boolean] → Bool
  | .cons (.boolean b) .nil => b

def GItems.uuuu : GItems [.uint32, .uint32, .uint32, .uint32] → UInt32 × UInt32 × UInt32 × UInt32
  | .cons a (.cons b (.cons c (.cons d .nil))) => (a.u, b.u, c.u, d.u)

def GItems.bu : GItems [.boolean, .uint32] → Bool × UInt32
  | .cons (.boolean b) (.cons n .nil) => (b, n.u)

def GItems.bb : GItems [.boolean, .boolean] → Bool × Bool
  | .cons (.boolean b) (.cons (.boolean c) .nil) => (b, c)

namespace GVariant

/-- `g_variant_get` with the format string `(b)`. -/
def getB : GVariant → Option Bool
  | ⟨.tuple [.boolean], .tuple vs⟩ => some vs.b
  | _ => none

/-- With the format string `(uuuu)`. -/
def getUUUU : GVariant → Option (UInt32 × UInt32 × UInt32 × UInt32)
  | ⟨.tuple [.uint32, .uint32, .uint32, .uint32], .tuple vs⟩ => some vs.uuuu
  | _ => none

/-- With the format string `(bu)`. -/
def getBU : GVariant → Option (Bool × UInt32)
  | ⟨.tuple [.boolean, .uint32], .tuple vs⟩ => some vs.bu
  | _ => none

/-- With the format string `(bb)`. -/
def getBB : GVariant → Option (Bool × Bool)
  | ⟨.tuple [.boolean, .boolean], .tuple vs⟩ => some vs.bb
  | _ => none

def ofItems {types : List GVariantType} (items : GItems types) : GVariant :=
  ⟨.tuple types, .tuple items⟩

end GVariant

/-- The request that `LEDs::dbus_method_call` makes of a call. -/
def requestOf (method_name : Option String) (parameters : GVariant) : Except Misuse Request :=
  let method_name := method_name.getD ""
  if method_name = "SetCapsLock" then do
    let state ← unpack "(b)" parameters.getB
    return .setCapsLock state
  else if method_name = "SetLEDBlockStep" then do
    let (led, colour, type, value) ← unpack "(uuuu)" parameters.getUUUU
    return .setLEDBlockStep led colour type value
  else if method_name = "ClearLEDBlockAnimation" then return .clearLEDBlockAnimation
  else if method_name = "PushLEDBlockAnimation" then return .pushLEDBlockAnimation
  else if method_name = "SetTorch" then do
    let (on, duration) ← unpack "(bu)" parameters.getBU
    return .setTorch on duration
  else if method_name = "SetCall" then do
    let (earpiece, leftUp) ← unpack "(bb)" parameters.getBB
    return .setCall earpiece leftUp
  else return .unknown method_name

/-- The call that a client makes for a request: a method's name, and the parameters packed. -/
def Request.emit : Request → Option (String × GVariant)
  | .setCapsLock state => some ("SetCapsLock", .ofItems (.cons (.boolean state) .nil))
  | .setLEDBlockStep led colour type value =>
      some ("SetLEDBlockStep",
        .ofItems (.cons (.uint32 led) (.cons (.uint32 colour)
          (.cons (.uint32 type) (.cons (.uint32 value) .nil)))))
  | .clearLEDBlockAnimation => some ("ClearLEDBlockAnimation", .ofItems .nil)
  | .pushLEDBlockAnimation => some ("PushLEDBlockAnimation", .ofItems .nil)
  | .setTorch on duration =>
      some ("SetTorch", .ofItems (.cons (.boolean on) (.cons (.uint32 duration) .nil)))
  | .setCall earpiece leftUp =>
      some ("SetCall", .ofItems (.cons (.boolean earpiece) (.cons (.boolean leftUp) .nil)))
  | .unknown _ => none

/-- Parameters have items of the types that their type string spells. -/
theorem items_of_typeString {parameters : GVariant} (types : List GVariantType)
    (h : parameters.type.typeString = (GVariantType.tuple types).typeString) :
    ∃ items : GItems types, parameters = .ofItems items := by
  obtain ⟨type, value⟩ := parameters
  obtain rfl : type = .tuple types := GVariantType.typeString_injective h
  cases value with
  | tuple items => exact ⟨items, rfl⟩

/-- A call is delivered only for a method of the introspection data, and with its arguments. -/
theorem delivered_iff {method_name : String} {parameters : GVariant} :
    delivered method_name parameters ↔
      ∃ args, ledsServiceIntrospection.lookup method_name = some args ∧
        parameters.type.typeString = completeSignature args := by
  unfold delivered
  cases ledsServiceIntrospection.lookup method_name <;> simp

@[simp]
theorem GValue.boolean_b (v : GValue .boolean) : .boolean v.b = v := by
  cases v
  rfl

@[simp]
theorem GValue.uint32_u (v : GValue .uint32) : .uint32 v.u = v := by
  cases v
  rfl

theorem lookup_cases {method_name : String} {args : List String}
    (h : ledsServiceIntrospection.lookup method_name = some args) :
    (method_name, args) ∈ ledsServiceIntrospection := by
  obtain ⟨before, after, hlist, -⟩ := List.lookup_eq_some_iff.mp h
  rw [hlist]
  exact List.mem_append_right before List.mem_cons_self

/-- Every call that is delivered packs a request. -/
theorem exists_emit {method_name : String} {parameters : GVariant}
    (h : delivered method_name parameters) :
    ∃ r : Request, r.emit = some (method_name, parameters) := by
  obtain ⟨args, hlookup, htype⟩ := delivered_iff.mp h
  have hmethod := lookup_cases hlookup
  simp only [ledsServiceIntrospection, List.mem_cons, Prod.mk.injEq, List.not_mem_nil,
    or_false] at hmethod
  rcases hmethod with ⟨rfl, rfl⟩ | ⟨rfl, rfl⟩ | ⟨rfl, rfl⟩ | ⟨rfl, rfl⟩ | ⟨rfl, rfl⟩ | ⟨rfl, rfl⟩
  · obtain ⟨_ | ⟨state, _ | _⟩, rfl⟩ := items_of_typeString [.boolean] htype
    exact ⟨.setCapsLock state.b, by simp [Request.emit]⟩
  · obtain ⟨_ | ⟨led, _ | ⟨colour, _ | ⟨type, _ | ⟨value, _ | _⟩⟩⟩⟩, rfl⟩ :=
      items_of_typeString [.uint32, .uint32, .uint32, .uint32] htype
    exact ⟨.setLEDBlockStep led.u colour.u type.u value.u, by simp [Request.emit]⟩
  · obtain ⟨_ | _, rfl⟩ := items_of_typeString [] htype
    exact ⟨.clearLEDBlockAnimation, rfl⟩
  · obtain ⟨_ | _, rfl⟩ := items_of_typeString [] htype
    exact ⟨.pushLEDBlockAnimation, rfl⟩
  · obtain ⟨_ | ⟨on, _ | ⟨duration, _ | _⟩⟩, rfl⟩ :=
      items_of_typeString [.boolean, .uint32] htype
    exact ⟨.setTorch on.b duration.u, by simp [Request.emit]⟩
  · obtain ⟨_ | ⟨earpiece, _ | ⟨leftUp, _ | _⟩⟩, rfl⟩ :=
      items_of_typeString [.boolean, .boolean] htype
    exact ⟨.setCall earpiece.b leftUp.b, by simp [Request.emit]⟩

/-- A request that a client packs is delivered, and comes out of the parameters as it was. -/
theorem requestOf_emit {r : Request} {method_name : String} {parameters : GVariant}
    (h : r.emit = some (method_name, parameters)) :
    delivered method_name parameters ∧ requestOf (some method_name) parameters = .ok r := by
  cases r with
  | unknown method => cases h
  | _ =>
    cases h
    exact ⟨rfl, rfl⟩

theorem reply_of_emit {r : Request} (h : r.emit.isSome) : (dbusMethodCall r).reply = .value := by
  cases r with
  | unknown method => cases h
  | setLEDBlockStep led colour type value =>
    simp only [dbusMethodCall]
    split <;> rfl
  | _ => rfl

/-- Calls and requests correspond one to one: whatever is sent, a call that gets to the object is
read without misuse, as the request that packs into that very call, and is never answered as one
of an unknown method; and every request that can be packed gets there and is read as it was. -/
theorem calls_are_requests :
    (∀ method_name parameters, delivered method_name parameters →
      ∃ r : Request, requestOf (some method_name) parameters = .ok r ∧
        r.emit = some (method_name, parameters) ∧ (dbusMethodCall r).reply = .value) ∧
    ∀ (r : Request) (method_name : String) (parameters : GVariant),
      r.emit = some (method_name, parameters) →
        delivered method_name parameters ∧ requestOf (some method_name) parameters = .ok r := by
  constructor
  · intro method_name parameters h
    obtain ⟨r, hr⟩ := exists_emit h
    have hread := (requestOf_emit hr).2
    exact ⟨r, hread, hr, reply_of_emit (by rw [hr]; rfl)⟩
  · intro r method_name parameters h
    exact requestOf_emit h

/-- A timed torch. -/
theorem calls_are_requests_torch :
    (∃ r : Request,
      requestOf (some "SetTorch") (.ofItems (.cons (.boolean true) (.cons (.uint32 500) .nil))) =
          .ok r ∧
        r.emit =
          some ("SetTorch", .ofItems (.cons (.boolean true) (.cons (.uint32 500) .nil))) ∧
        (dbusMethodCall r).reply = .value) ∧
    requestOf (some "SetTorch") (.ofItems (.cons (.boolean true) (.cons (.uint32 500) .nil))) =
      .ok (.setTorch true 500) :=
  ⟨calls_are_requests.1 _ _ rfl, (calls_are_requests.2 (.setTorch true 500) _ _ rfl).2⟩

end GemianLeds
