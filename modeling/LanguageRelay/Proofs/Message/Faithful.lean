import LanguageRelay.Frame.Reader
import LanguageRelay.Message.Event
import LanguageRelay.Proofs.Json.Arranged
import LanguageRelay.Proofs.Keyed
namespace LanguageRelay
open Json

theorem SessionState.name_inj {first second : SessionState} (same : first.name = second.name) :
    first = second := by
  have found := second.lookup_name
  rw [← same, first.lookup_name] at found
  exact Option.some.inj found

namespace ClientEvent
variable {event other : ClientEvent} {method : String}

-- The events there are: an exit code has 32 bits and an error code 64.
def Fits : ClientEvent → Prop
  | .message _ => True
  | .status e => ∀ code, e.exitCode = some code → -0x80000000 ≤ code ∧ code < 0x80000000
  | .error _ code _ => -0x8000000000000000 ≤ code ∧ code < 0x8000000000000000

def method? : ClientEvent → Option String
  | .message _ => none
  | .status _ => some statusMethod
  | .error _ _ _ => some errorMethod

-- What is said of an event under a name.
def parameter? (event : ClientEvent) (name : String) : Option Value :=
  match event with
  | .message _ => none
  | .status e =>
    match name with
    | "key" => some (.text e.key)
    | "state" => some (.text e.state.name)
    | "exitCode" => e.exitCode.map fun code => .number (.integer code)
    | "message" => e.message.map .text
    | _ => none
  | .error key code text =>
    match name with
    | "key" => some (.text key)
    | "code" => some (.number (.integer code))
    | "message" => some (.text text)
    | _ => none

def parameters : ClientEvent → List (String × Value)
  | .message _ => []
  | .status e => e.params
  | .error key code text =>
    [("key", .text key), ("code", .number (.integer code)), ("message", .text text)]

theorem toMessage_of_method (notifies : event.method? = some method) :
    event.toMessage = .ofValue (notification method event.parameters) := by
  cases event with
  | message m => cases notifies
  | status e => cases notifies; rfl
  | error key code text => cases notifies; rfl

theorem nodup_keys_parameters (event : ClientEvent) : (Keyed.keys event.parameters).Nodup := by
  cases event with
  | message m => exact List.nodup_nil
  | status e =>
    rw [parameters, StatusEvent.params, Keyed.keys]
    cases e.exitCode <;> cases e.message <;> simp
  | error key code text => simp [parameters, Keyed.keys]

theorem find?_parameters (event : ClientEvent) (name : String) :
    Keyed.find? name event.parameters = event.parameter? name := by
  cases event with
  | message m => rfl
  | status e =>
    obtain ⟨key, state, exitCode, message⟩ := e
    unfold parameter?
    cases exitCode <;> cases message <;> dsimp only <;> split <;>
      simp_all [parameters, StatusEvent.params, Keyed.find?, eq_comm]
  | error key code text =>
    unfold parameter?
    dsimp only
    split <;> simp_all [parameters, Keyed.find?, eq_comm]

theorem isIntegral_notification (fits : event.Fits) (method : String) :
    (notification method event.parameters).isIntegral := by
  cases event with
  | message m => rfl
  | status e =>
    obtain ⟨key, state, exitCode, message⟩ := e
    cases exitCode with
    | none => cases message <;> rfl
    | some code =>
      obtain ⟨low, high⟩ := fits code rfl
      cases message <;>
        simp [notification, parameters, StatusEvent.params, Value.isIntegral, membersAreIntegral] <;> omega
  | error key code text =>
    obtain ⟨low, high⟩ := fits
    simp [notification, parameters, Value.isIntegral, membersAreIntegral]
    omega

theorem nestsWithin_notification (event : ClientEvent) (method : String) :
    (notification method event.parameters).nestsWithin greatestDepth := by
  cases event with
  | message m => rfl
  | status e =>
    obtain ⟨key, state, exitCode, message⟩ := e
    cases exitCode <;> cases message <;> rfl
  | error key code text => rfl

theorem arrangedMembers_parameters (event : ClientEvent) :
    arrangedMembers event.parameters = event.parameters := by
  cases event with
  | message m => rfl
  | status e =>
    obtain ⟨key, state, exitCode, message⟩ := e
    cases exitCode <;> cases message <;> rfl
  | error key code text => rfl

def bound (event : ClientEvent) : Keyed Value := Keyed.ofList event.parameters

theorem find?_bound (event : ClientEvent) (name : String) :
    event.bound.find? name = event.parameter? name := by
  rw [bound, Keyed.find?_ofList_of_nodup (nodup_keys_parameters event), find?_parameters]

theorem arranged_notification (event : ClientEvent) (method : String) :
    (notification method event.parameters).arranged = notification method event.bound := by
  have names : ["jsonrpc", "method", "params"].Pairwise (· < ·) := by decide
  have ascends : Keyed.Ascends
      [("jsonrpc", Value.text "2.0"), ("method", .text method), ("params", .object event.bound)] :=
    List.pairwise_map.1 names
  simp only [notification, Value.arranged, arrangedMembers, arrangedMembers_parameters, Value.ofMembers]
  rw [← bound, ascends.ofList]

theorem value?_toMessage (fits : event.Fits) (notifies : event.method? = some method) :
    event.toMessage.value? = some (notification method event.bound) := by
  rw [toMessage_of_method notifies, Message.value?, Message.ofValue,
    Value.read?_render (isIntegral_notification fits method) (nestsWithin_notification event method),
    arranged_notification]

theorem isWellFormed_toMessage (fits : event.Fits) (notifies : event.method? = some method) :
    isWellFormed event.toMessage.body := by
  rw [toMessage_of_method notifies, Message.ofValue, isWellFormed,
    Syntax.read?_render (isIntegral_notification fits method)]
  rfl

theorem statusMethod_ne_errorMethod : statusMethod ≠ errorMethod := by decide

theorem eq_of_parameter? (notifies : event.method? = some method) (notifies' : other.method? = some method)
    (same : ∀ name, other.parameter? name = event.parameter? name) : other = event := by
  cases event with
  | message m => cases notifies
  | status e =>
    cases other with
    | message m => cases notifies'
    | error key code text =>
      exact absurd ((Option.some.inj notifies).trans (Option.some.inj notifies').symm)
        statusMethod_ne_errorMethod
    | status o =>
      obtain ⟨key, state, exitCode, message⟩ := e
      obtain ⟨key', state', exitCode', message'⟩ := o
      have sameKey : key' = key := by simpa [parameter?] using same "key"
      have sameName : state'.name = state.name := by simpa [parameter?] using same "state"
      have sameState : state' = state := SessionState.name_inj sameName
      have sameCode : exitCode' = exitCode :=
        Option.map_injective (fun _ _ h => by simpa using h) (same "exitCode")
      have sameText : message' = message :=
        Option.map_injective (fun _ _ h => by simpa using h) (same "message")
      rw [sameKey, sameState, sameCode, sameText]
  | error key code text =>
    cases other with
    | message m => cases notifies'
    | status o =>
      exact absurd ((Option.some.inj notifies').trans (Option.some.inj notifies).symm)
        statusMethod_ne_errorMethod
    | error key' code' text' =>
      have sameKey : key' = key := by simpa [parameter?] using same "key"
      have sameCode : code' = code := by simpa [parameter?] using same "code"
      have sameText : text' = text := by simpa [parameter?] using same "message"
      rw [sameKey, sameCode, sameText]

theorem eq_of_toMessage (fits : event.Fits) (notifies : event.method?.isSome)
    (fits' : other.Fits) (notifies' : other.method?.isSome) (same : other.toMessage = event.toMessage) :
    other = event := by
  obtain ⟨method, isMethod⟩ := Option.isSome_iff_exists.1 notifies
  obtain ⟨method', isMethod'⟩ := Option.isSome_iff_exists.1 notifies'
  have read := value?_toMessage fits isMethod
  rw [← same, value?_toMessage fits' isMethod'] at read
  obtain ⟨sameMethod, sameParams⟩ : method' = method ∧ other.bound = event.bound := by
    simpa [notification] using read
  subst sameMethod
  refine eq_of_parameter? isMethod isMethod' fun name => ?_
  rw [← find?_bound, ← find?_bound, sameParams]

-- A notification passes the check of the frame reader and is read back as the version, the method and
-- nothing but the parameters of its event. No other event has its text; a message is its own text.
theorem notification_faithful (fits : event.Fits) (notifies : event.method? = some method) :
    Frame.finishBody (Text.utf8 event.toMessage.body) = .frame event.toMessage.body ∧
      (∃ params : Keyed Value,
        event.toMessage.value? = some (.object
          [("jsonrpc", .text "2.0"), ("method", .text method), ("params", .object params)]) ∧
        params.Ascends ∧ ∀ name, params.find? name = event.parameter? name) ∧
      (∀ other : ClientEvent, other.Fits → other.method?.isSome → other.toMessage = event.toMessage →
        other = event) ∧
      ∀ m, (ClientEvent.message m).toMessage = m := by
  refine ⟨?_, ⟨event.bound, value?_toMessage fits notifies, Keyed.ascends_ofList _, find?_bound event⟩,
    fun other fits' notifies' same => ?_, fun m => rfl⟩
  · rw [Frame.finishBody, Text.utf8Decode?_utf8]
    exact if_pos (isWellFormed_toMessage fits notifies)
  · exact eq_of_toMessage fits (Option.isSome_of_eq_some notifies) fits' notifies' same

-- A crash whose key and message hold a quote, a backslash, control characters and an astral one.
def shrill : ClientEvent :=
  .status ⟨"py\"ls\\", .crashed, some (-9), some "bell \x07, line\n, 💥"⟩

theorem notification_faithful_shrill :
    shrill.Fits ∧ shrill.method? = some statusMethod ∧
      shrill.parameter? "exitCode" = some (.number (.integer (-9))) ∧
      (∃ params : Keyed Value,
        shrill.toMessage.value? = some (.object
          [("jsonrpc", .text "2.0"), ("method", .text statusMethod), ("params", .object params)]) ∧
        params.Ascends ∧ ∀ name, params.find? name = shrill.parameter? name) := by
  have fits : shrill.Fits := by
    rintro code same
    cases same
    decide
  have notifies : shrill.method? = some statusMethod := rfl
  exact ⟨fits, notifies, rfl, (notification_faithful fits notifies).2.1⟩

end ClientEvent
end LanguageRelay
