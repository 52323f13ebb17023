import GemianLeds.Connman.Variant
import GemianLeds.LightState.Operations
import Mathlib.Data.List.Infix
import Mathlib.Logic.Function.Basic

/-! What `ConnectionWatcher` makes of the messages of connman: the replies to its queries and
the signals that a property has changed. -/
namespace GemianLeds

/-- The technologies that `ConnectionWatcher` watches. -/
inductive Technology where
  | wifi
  | bluetooth
  | cellular
  deriving DecidableEq

/-- `connection_object_path_wifi` and its siblings. -/
def Technology.objectPath : Technology → String
  | .wifi => "/net/connman/technology/wifi"
  | .bluetooth => "/net/connman/technology/bluetooth"
  | .cellular => "/net/connman/technology/cellular"

/-- The flag that a light state keeps for a technology. -/
def connectivityOf (s : LightState) : Technology → Bool
  | .wifi => s.connectivityWifi
  | .bluetooth => s.connectivityBluetooth
  | .cellular => s.connectivityCellular

/-- How the functions of GLib that read a value can be misused. -/
inductive Misuse where
  | missingValue
  | otherType (format : String)

/-- A value read with a format string must have its type. -/
def unpack {β : Type} (format : String) : Option β → Except Misuse β
  | some x => .ok x
  | none => .error (.otherType format)

def saveStateForPath (object_path : String) (powered : Bool) : List WatcherCall :=
  if "wifi".toList <:+: object_path.toList then [.wifi powered]
  else if "bluetooth".toList <:+: object_path.toList then [.bluetooth powered]
  else if "cellular".toList <:+: object_path.toList then [.cellular powered]
  else []

def handleDbusSignal (object_path : String) (signal_name : Option String)
    (parameters : GVariant) : Except Misuse (List WatcherCall) :=
  if signal_name.getD "" = "PropertyChanged" then do
    let (key, value) ← unpack "(sv)" parameters.getStringVariant
    if key = "Powered" then do
      let powered ← unpack "b" value.getBoolean
      return saveStateForPath object_path powered
    else return []
  else return []

/-- The loop over the properties of a reply. -/
def saveProperties (object_path : String) :
    List (String × GVariant) → Except Misuse (List WatcherCall)
  | [] => return []
  | (key, value) :: properties =>
      if key = "Powered" then do
        let powered ← unpack "b" value.getBoolean
        let calls ← saveProperties object_path properties
        return saveStateForPath object_path powered ++ calls
      else saveProperties object_path properties

inductive MessageType where
  | methodReturn
  | error

/-- A reply. Nothing looks at its type. -/
structure GDBusMessage where
  messageType : MessageType
  body : Option GVariant

/-- `result` is null when no reply came. -/
def dbusQueryConnectivityState (object_path : String) (result : Option GDBusMessage) :
    Except Misuse (List WatcherCall) :=
  match result with
  | none => return []
  | some message =>
      match message.body with
      | none => throw .missingValue
      | some body =>
          if body.type.typeString = "(s)".toList then do
            let _ ← unpack "(s)" body.getString
            return []
          else do
            let properties ← unpack "(a{sv})" body.getProperties
            saveProperties object_path properties

/-- What arrives for a technology: the end of the synchronous query, or a signal. -/
inductive ConnmanMessage where
  | reply (result : Option GDBusMessage)
  | propertyChanged (parameters : GVariant)

def ConnmanMessage.handle (t : Technology) : ConnmanMessage → Except Misuse (List WatcherCall)
  | .reply result => dbusQueryConnectivityState t.objectPath result
  | .propertyChanged parameters =>
      handleDbusSignal t.objectPath (some "PropertyChanged") parameters

/-- The entries that a message carries. -/
def ConnmanMessage.properties : ConnmanMessage → List (String × GVariant)
  | .reply result =>
      (result.bind fun message => message.body.bind GVariant.getProperties).getD []
  | .propertyChanged parameters => parameters.getStringVariant.toList

/-- The values of the boolean entries named `Powered`. -/
def poweredValues (properties : List (String × GVariant)) : List Bool :=
  properties.filterMap fun entry => if entry.1 = "Powered" then entry.2.getBoolean else none

/-- The last one counts. -/
def ConnmanMessage.powered (m : ConnmanMessage) : Option Bool :=
  (poweredValues m.properties).getLast?

/-- The types that the code reads: any signal of type `(sv)`; and no reply, or one whose body
is an error text or a list of properties. -/
def ConnmanMessage.Readable : ConnmanMessage → Prop
  | .reply none => True
  | .reply (some message) =>
      ∃ body, message.body = some body ∧
        (body.type = .tuple [.string] ∨
          body.type = .tuple [.array (.dictEntry .string .variant)])
  | .propertyChanged parameters => parameters.type = .tuple [.string, .variant]

/-- Every entry named `Powered` is boolean. -/
def PoweredBoolean (properties : List (String × GVariant)) : Prop :=
  ∀ entry ∈ properties, entry.1 = "Powered" → entry.2.type = .boolean

def ConnmanMessage.WellFormed (m : ConnmanMessage) : Prop :=
  m.Readable ∧ PoweredBoolean m.properties

/-- A message is read without misuse, and sets the flag of its technology to the `Powered`
entry it carries, if it carries one, and no other flag. -/
def ConnmanMessage.Harmless (t : Technology) (m : ConnmanMessage) : Prop :=
  ∃ calls, m.handle t = .ok calls ∧ ∀ s : LightState,
    connectivityOf (runOps s (calls.map .watcher)) =
      match m.powered with
      | some powered => Function.update (connectivityOf s) t powered
      | none => connectivityOf s

/-- The call that sets the flag of a technology. -/
def Technology.call : Technology → Bool → WatcherCall
  | .wifi => .wifi
  | .bluetooth => .bluetooth
  | .cellular => .cellular

theorem saveStateForPath_objectPath (t : Technology) (powered : Bool) :
    saveStateForPath t.objectPath powered = [t.call powered] := by
  cases t <;> rfl

theorem connectivityOf_next (t : Technology) (powered : Bool) (s : LightState) :
    connectivityOf ((Op.watcher (t.call powered)).next s) =
      Function.update (connectivityOf s) t powered := by
  obtain ⟨pc, h⟩ := (Op.watcher (t.call powered)).next_at s
  rw [h]
  funext u
  cases t <;> cases u <;> rfl

/-- Of several calls for one technology the last one counts. -/
theorem connectivityOf_calls (t : Technology) (values : List Bool) (s : LightState) :
    connectivityOf (runOps s ((values.map t.call).map .watcher)) =
      match values.getLast? with
      | some powered => Function.update (connectivityOf s) t powered
      | none => connectivityOf s := by
  induction values generalizing s with
  | nil => rfl
  | cons value values ih =>
    rw [List.map_cons, List.map_cons, runOps_cons, ih, connectivityOf_next, List.getLast?_cons]
    cases values.getLast? with
    | none => rfl
    | some powered => exact Function.update_idem ..

theorem unpack_of_isSome {β : Type} (format : String) {x : Option β} (h : x.isSome) :
    ∃ y, x = some y ∧ unpack format x = .ok y := by
  obtain ⟨y, rfl⟩ := Option.isSome_iff_exists.mp h
  exact ⟨y, rfl, rfl⟩

theorem isSome_of_unpack {β : Type} {format : String} {x : Option β} {y : β}
    (h : unpack format x = .ok y) : x = some y := by
  cases x with
  | none => cases h
  | some z => exact congrArg some (Except.ok.inj h)

theorem poweredValues_cons {key : String} {value : GVariant} {powered : Bool}
    (hkey : key = "Powered") (hvalue : value.getBoolean = some powered)
    (properties : List (String × GVariant)) :
    poweredValues ((key, value) :: properties) = powered :: poweredValues properties := by
  apply List.filterMap_cons_some
  rw [if_pos hkey, hvalue]

theorem poweredValues_cons_other {key : String} (hkey : key ≠ "Powered") (value : GVariant)
    (properties : List (String × GVariant)) :
    poweredValues ((key, value) :: properties) = poweredValues properties := by
  apply List.filterMap_cons_none
  rw [if_neg hkey]

theorem saveProperties_ok (t : Technology) {properties : List (String × GVariant)}
    (h : PoweredBoolean properties) :
    saveProperties t.objectPath properties = .ok ((poweredValues properties).map t.call) := by
  induction properties with
  | nil => rfl
  | cons entry properties ih =>
    obtain ⟨key, value⟩ := entry
    have hrest := ih fun entry hentry => h entry (.tail _ hentry)
    unfold saveProperties
    by_cases hkey : key = "Powered"
    · have htype := h (key, value) List.mem_cons_self hkey
      obtain ⟨powered, hpowered, hunpack⟩ :=
        unpack_of_isSome "b" (value.getBoolean_isSome.mpr htype)
      rw [if_pos hkey, hunpack, hrest, poweredValues_cons hkey hpowered]
      change Except.ok (saveStateForPath t.objectPath powered ++ _) = _
      rw [saveStateForPath_objectPath]
      rfl
    · rw [if_neg hkey, hrest, poweredValues_cons_other hkey]

/-- A list of properties is read to its end only if every `Powered` entry is boolean. -/
theorem poweredBoolean_of_saveProperties {object_path : String}
    {properties : List (String × GVariant)} {calls : List WatcherCall}
    (h : saveProperties object_path properties = .ok calls) : PoweredBoolean properties := by
  induction properties generalizing calls with
  | nil =>
    intro entry hentry
    cases hentry
  | cons entry properties ih =>
    obtain ⟨key, value⟩ := entry
    unfold saveProperties at h
    split at h
    next hkey =>
      cases hunpack : unpack "b" value.getBoolean with
      | error misuse =>
        rw [hunpack] at h
        cases h
      | ok powered =>
        rw [hunpack] at h
        cases hrest : saveProperties object_path properties with
        | error misuse =>
          rw [hrest] at h
          cases h
        | ok rest =>
          refine List.forall_mem_cons.mpr ⟨fun _ => ?_, ih hrest⟩
          apply value.getBoolean_isSome.mp
          rw [isSome_of_unpack hunpack]
          rfl
    next hkey => exact List.forall_mem_cons.mpr ⟨fun h => absurd h hkey, ih h⟩

/-- A reply whose body is a text is taken for an error. -/
theorem query_of_text (object_path : String) {message : GDBusMessage} {body : GVariant}
    (h : message.body = some body) (htype : body.type = .tuple [.string]) :
    dbusQueryConnectivityState object_path (some message) = .ok [] := by
  obtain ⟨text, -, hunpack⟩ := unpack_of_isSome "(s)" (body.getString_isSome.mpr htype)
  unfold dbusQueryConnectivityState
  simp only [h, if_pos (GVariantType.typeString_eq_s.mpr htype), hunpack]
  rfl

theorem getProperties_of_text {body : GVariant} (htype : body.type = .tuple [.string]) :
    body.getProperties = none := by
  apply Option.eq_none_iff_forall_ne_some.mpr
  intro properties hproperties
  have hother := body.getProperties_isSome.mp (by rw [hproperties]; rfl)
  rw [htype] at hother
  cases hother

/-- Any other body is taken for a list of properties. -/
theorem query_of_other (object_path : String) {message : GDBusMessage} {body : GVariant}
    (h : message.body = some body) (htype : body.type ≠ .tuple [.string]) :
    dbusQueryConnectivityState object_path (some message) =
      (unpack "(a{sv})" body.getProperties).bind (saveProperties object_path) := by
  unfold dbusQueryConnectivityState
  simp only [h, if_neg (fun heq => htype (GVariantType.typeString_eq_s.mp heq))]
  rfl

theorem properties_reply {message : GDBusMessage} {body : GVariant}
    (h : message.body = some body) :
    (ConnmanMessage.reply (some message)).properties = body.getProperties.getD [] := by
  simp [ConnmanMessage.properties, h]

/-- A signal, once its parameters are read. -/
theorem handleDbusSignal_of_entry (object_path : String) {parameters : GVariant} {key : String}
    {value : GVariant} (h : parameters.getStringVariant = some (key, value)) :
    handleDbusSignal object_path (some "PropertyChanged") parameters =
      if key = "Powered" then (unpack "b" value.getBoolean).map (saveStateForPath object_path)
      else .ok [] := by
  unfold handleDbusSignal
  rw [h]
  rfl

theorem properties_propertyChanged {parameters : GVariant} {entry : String × GVariant}
    (h : parameters.getStringVariant = some entry) :
    (ConnmanMessage.propertyChanged parameters).properties = [entry] := by
  simp [ConnmanMessage.properties, h]

/-- A well-formed message leads to one call for each of its `Powered` entries. -/
theorem ConnmanMessage.handle_ok (t : Technology) {m : ConnmanMessage} (h : m.WellFormed) :
    m.handle t = .ok ((poweredValues m.properties).map t.call) := by
  obtain ⟨hreadable, hboolean⟩ := h
  unfold handle
  cases m with
  | reply result =>
    cases result with
    | none => rfl
    | some message =>
      obtain ⟨body, hbody, htype⟩ := hreadable
      rw [properties_reply hbody] at hboolean ⊢
      rcases htype with htype | htype
      · rw [getProperties_of_text htype]
        exact query_of_text _ hbody htype
      · obtain ⟨properties, hproperties, hunpack⟩ :=
          unpack_of_isSome "(a{sv})" (body.getProperties_isSome.mpr htype)
        have hother : body.type ≠ .tuple [.string] := by
          rw [htype]
          nofun
        rw [hproperties] at hboolean
        simp only
        rw [query_of_other _ hbody hother, hunpack, hproperties]
        exact saveProperties_ok t hboolean
  | propertyChanged parameters =>
    obtain ⟨⟨key, value⟩, hentry, -⟩ :=
      unpack_of_isSome "(sv)" (parameters.getStringVariant_isSome.mpr hreadable)
    rw [properties_propertyChanged hentry] at hboolean ⊢
    simp only
    rw [handleDbusSignal_of_entry _ hentry]
    by_cases hkey : key = "Powered"
    · have htype := hboolean (key, value) List.mem_cons_self hkey
      obtain ⟨powered, hpowered, hunpack⟩ :=
        unpack_of_isSome "b" (value.getBoolean_isSome.mpr htype)
      rw [if_pos hkey, hunpack, poweredValues_cons hkey hpowered]
      change Except.ok (saveStateForPath t.objectPath powered) = _
      rw [saveStateForPath_objectPath]
      rfl
    · rw [if_neg hkey, poweredValues_cons_other hkey]
      rfl

/-- A reply that is read without misuse is well formed. -/
theorem wellFormed_of_query {object_path : String} {message : GDBusMessage}
    {calls : List WatcherCall}
    (h : dbusQueryConnectivityState object_path (some message) = .ok calls) :
    (ConnmanMessage.reply (some message)).WellFormed := by
  cases hbody : message.body with
  | none =>
    unfold dbusQueryConnectivityState at h
    simp only [hbody] at h
    cases h
  | some body =>
    unfold ConnmanMessage.WellFormed
    rw [properties_reply hbody]
    by_cases htype : body.type = .tuple [.string]
    · refine ⟨⟨body, hbody, .inl htype⟩, ?_⟩
      rw [getProperties_of_text htype]
      intro entry hentry
      cases hentry
    · rw [query_of_other _ hbody htype] at h
      cases hunpack : unpack "(a{sv})" body.getProperties with
      | error misuse =>
        rw [hunpack] at h
        cases h
      | ok properties =>
        rw [hunpack] at h
        have hproperties := isSome_of_unpack hunpack
        refine ⟨⟨body, hbody, .inr ?_⟩, ?_⟩
        · apply body.getProperties_isSome.mp
          rw [hproperties]
          rfl
        · rw [hproperties]
          exact poweredBoolean_of_saveProperties h

/-- So is a signal. -/
theorem wellFormed_of_signal {object_path : String} {parameters : GVariant}
    {calls : List WatcherCall}
    (h : handleDbusSignal object_path (some "PropertyChanged") parameters = .ok calls) :
    (ConnmanMessage.propertyChanged parameters).WellFormed := by
  cases hentry : parameters.getStringVariant with
  | none =>
    unfold handleDbusSignal at h
    rw [hentry] at h
    cases h
  | some entry =>
    obtain ⟨key, value⟩ := entry
    refine ⟨parameters.getStringVariant_isSome.mp (by rw [hentry]; rfl), ?_⟩
    rw [properties_propertyChanged hentry]
    rw [handleDbusSignal_of_entry _ hentry] at h
    refine List.forall_mem_singleton.mpr fun hkey => ?_
    rw [if_pos hkey] at h
    apply value.getBoolean_isSome.mp
    cases hvalue : value.getBoolean with
    | none =>
      rw [hvalue] at h
      cases h
    | some powered => rfl

theorem ConnmanMessage.wellFormed_of_handle {t : Technology} {m : ConnmanMessage}
    {calls : List WatcherCall} (h : m.handle t = .ok calls) : m.WellFormed := by
  cases m with
  | reply result =>
    cases result with
    | none => exact ⟨trivial, fun entry hentry => by cases hentry⟩
    | some message => exact wellFormed_of_query h
  | propertyChanged parameters => exact wellFormed_of_signal h

theorem ConnmanMessage.harmless_of_wellFormed (t : Technology) {m : ConnmanMessage}
    (h : m.WellFormed) : m.Harmless t :=
  ⟨_, m.handle_ok t h, fun s => connectivityOf_calls t (poweredValues m.properties) s⟩

/-- Exactly the well-formed messages are harmless. -/
theorem connman_message_harmless_iff (t : Technology) (m : ConnmanMessage) :
    m.Harmless t ↔ m.WellFormed := by
  constructor
  · rintro ⟨calls, hcalls, -⟩
    exact ConnmanMessage.wellFormed_of_handle hcalls
  · exact ConnmanMessage.harmless_of_wellFormed t

/-- A reply without a body: its type string is asked for all the same. -/
theorem absent_body_misused :
    ¬ ∀ (t : Technology) (m : ConnmanMessage), m.Harmless t := by
  intro hall
  obtain ⟨calls, hcalls, -⟩ := hall .wifi (.reply (some ⟨.methodReturn, none⟩))
  cases hcalls

/-- A signal that sets `Powered` to a text, and a reply that is no list of properties. -/
example :
    handleDbusSignal Technology.wifi.objectPath (some "PropertyChanged")
        ⟨_, .tuple (.cons (.string "Powered") (.cons (.variant (.string "on")) .nil))⟩ =
      .error (.otherType "b") ∧
    dbusQueryConnectivityState Technology.wifi.objectPath
        (some ⟨.error, some ⟨_, .tuple (.cons (.uint32 7) .nil)⟩⟩) =
      .error (.otherType "(a{sv})") :=
  ⟨rfl, rfl⟩

end GemianLeds
