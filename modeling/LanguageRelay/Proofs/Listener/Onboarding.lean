import LanguageRelay.Listener.Scripted
import LanguageRelay.Proofs.Json.Ordered
import LanguageRelay.Proofs.Listener.Composition
namespace LanguageRelay.Onboarding
open Json
variable {ε : Type} {method root : String} {request told other : Keyed Value} {value : Value}
  {direction : Direction} {context : ListenerContext} {message : Message}

-- The members of the parameters of a request. Parameters that are missing or no object have none.
def paramsOf (request : Keyed Value) : Keyed Value :=
  match request.find? "params" with
  | some (.object members) => members
  | _ => []

def Asks (method : String) (message : Message) (request : Keyed Value) : Prop :=
  message.value? = some (.object request) ∧ request.find? "method" = some (.text method)

structure Tells (root : String) (request told : Keyed Value) : Prop where
  ordered : told.Ascends
  others : ∀ key, key ≠ "params" → told.find? key = request.find? key
  params : ∃ params : Keyed Value, told.find? "params" = some (.object params) ∧ params.Ascends ∧
    params.find? "serverRoot" = some (.text root) ∧
    ∀ key, key ≠ "serverRoot" → params.find? key = (paramsOf request).find? key

theorem paramsOf_of_find? {params : Keyed Value} (found : request.find? "params" = some (.object params)) :
    paramsOf request = params := by rw [paramsOf, found]

theorem Tells.unique (first : Tells root request told) (second : Tells root request other) :
    other = told := by
  obtain ⟨params, here, ascends, has, kept⟩ := first.params
  obtain ⟨params', here', ascends', has', kept'⟩ := second.params
  have same : params' = params := by
    refine ascends'.ext ascends fun key => ?_
    by_cases own : key = "serverRoot"
    · rw [own, has, has']
    · rw [kept key own, kept' key own]
  refine second.ordered.ext first.ordered fun key => ?_
  by_cases own : key = "params"
  · rw [own, here, here', same]
  · rw [first.others key own, second.others key own]

theorem Tells.again (tells : Tells root request told) : Tells root told told := by
  obtain ⟨params, here, ascends, has, -⟩ := tells.params
  refine ⟨tells.ordered, fun _ _ => rfl, params, here, ascends, has, fun key _ => ?_⟩
  rw [paramsOf_of_find? here]

theorem put?_root {ready params : Keyed Value} (found : ready.find? "params" = some (.object params)) :
    Value.put? ["params", "serverRoot"] (.text root) (.object ready) =
      some (.object (ready.insert "params" (.object (params.insert "serverRoot" (.text root))))) := by
  simp only [Value.put?, found, Option.getD_some, Option.map_some]

-- Before the root is put in place the request is given parameters that can hold it.
theorem exists_ready (root : String) (request : Keyed Value) : ∃ ready : Keyed Value,
    (request.Ascends → ready.Ascends) ∧ (∀ key, key ≠ "params" → ready.find? key = request.find? key) ∧
      addRoot? root (.object request) = some (.object (ready.insert "params"
        (.object ((paramsOf request).insert "serverRoot" (.text root))))) := by
  by_cases fit : (request.find? "params").any Value.isObject
  · obtain ⟨value, found, object⟩ := (Option.any_eq_true _ _).1 fit
    cases value with
    | object params =>
      refine ⟨request, id, fun _ _ => rfl, ?_⟩
      simp only [addRoot?, Value.get?, fit, if_true, Option.bind_eq_bind, Option.bind_some]
      rw [put?_root found, paramsOf_of_find? found]
    | _ => cases object
  · have none : paramsOf request = [] := by
      unfold paramsOf
      split
      case h_1 members found => exact absurd (by rw [found]; rfl) fit
      case h_2 => rfl
    refine ⟨request.insert "params" (.object []), fun ascends => Keyed.ascends_insert ascends _ _,
      fun key own => by rw [Keyed.find?_insert, if_neg (Ne.symm own)], ?_⟩
    have emptied : (request.insert "params" (.object [])).find? "params" = some (.object []) := by
      rw [Keyed.find?_insert, if_pos rfl]
    simp only [addRoot?, Value.get?, fit, Bool.false_eq_true, if_false, Option.bind_eq_bind]
    rw [Value.put?, Value.put?, Option.map_some, Option.bind_some, put?_root emptied, none]

theorem tells_of_addRoot? (root : String) (ascends : request.Ascends)
    (ascends' : (paramsOf request).Ascends) :
    ∃ told : Keyed Value, addRoot? root (.object request) = some (.object told) ∧
      Tells root request told := by
  obtain ⟨ready, ordered, kept, added⟩ := exists_ready root request
  refine ⟨_, added, Keyed.ascends_insert (ordered ascends) _ _, fun key own => ?_, _,
    by rw [Keyed.find?_insert, if_pos rfl], Keyed.ascends_insert ascends' _ _,
    by rw [Keyed.find?_insert, if_pos rfl], fun key own => ?_⟩
  · rw [Keyed.find?_insert, if_neg (Ne.symm own), kept key own]
  · rw [Keyed.find?_insert, if_neg (Ne.symm own)]

theorem Tells.addRoot? (tells : Tells root request told) :
    addRoot? root (.object told) = some (.object told) := by
  obtain ⟨params, here, ascends, -⟩ := tells.params
  rw [← paramsOf_of_find? here] at ascends
  obtain ⟨twice, added, retells⟩ := tells_of_addRoot? root tells.ordered ascends
  rw [added, tells.again.unique retells]

theorem textAt?_eq_some_iff {key : String} : value.textAt? key = some method ↔
    ∃ members, value = .object members ∧ Keyed.find? key members = some (.text method) := by
  constructor
  · intro found
    obtain ⟨member, here, text⟩ := Option.bind_eq_some_iff.1 found
    cases value with
    | object members =>
      cases member with
      | text s => cases text; exact ⟨members, rfl, here⟩
      | _ => cases text
    | _ => cases here
  · rintro ⟨members, rfl, found⟩
    simp only [Value.textAt?, Value.get?, found, Option.bind_some, Value.text?]

theorem verdict_of_asked (asked : request.find? "method" = some (.text method))
    (added : Onboarding.addRoot? root (.object request) = some value) :
    verdict method root (.object request) = .replace value := by
  rw [verdict, if_pos (textAt?_eq_some_iff.2 ⟨request, rfl, asked⟩), added]

theorem verdict_of_unasked (unasked : ¬ ∃ members, value = .object members ∧
    Keyed.find? "method" members = some (.text method)) : verdict method root value = .forward :=
  if_neg fun found => unasked (textAt?_eq_some_iff.1 found)

theorem verdict_ne_crashed (method root : String) (value : Value) :
    verdict method root value ≠ .crashed := by
  by_cases asked : ∃ members, value = .object members ∧
      Keyed.find? "method" members = some (.text method)
  · obtain ⟨request, rfl, asked⟩ := asked
    obtain ⟨ready, -, -, added⟩ := exists_ready root request
    rw [verdict_of_asked asked added]
    nofun
  · rw [verdict_of_unasked asked]
    nofun

theorem apply_of_replace {replacement : Value} (read : message.value? = some value)
    (replaces : verdict method root value = .replace replacement) :
    ListenerChain.apply [entry method root] .clientToServer context message =
      (some (.ofValue replacement), ([] : List ε)) := by
  simp only [ListenerChain.apply_of_value read, ListenerChain.run, ListenerChain.ask, entry, listener,
    replaces]
  rfl

theorem apply_of_forward (forwards : ∀ value, message.value? = some value →
      direction = .serverToClient ∨ verdict method root value = .forward) :
    ListenerChain.apply [entry method root] direction context message =
      (some message, ([] : List ε)) := by
  cases read : message.value? with
  | none => exact ListenerChain.apply_of_no_value read
  | some value =>
    simp only [ListenerChain.apply_of_value read, ListenerChain.run, ListenerChain.ask, entry, listener]
    rcases forwards value read with rfl | forward
    · rfl
    · rw [forward]
      cases direction <;> rfl

-- Alone in a chain, the listener never crashes. A request of the client by its method is sent on with the
-- root among its parameters and is not changed by being told again; all other messages keep their text.
theorem tells_root_only (method root : String) (context : ListenerContext) (message : Message) :
    (∀ direction value,
      ((listener method root : Listener ε).react direction context value).verdict ≠ .crashed) ∧
    (∀ request, Asks method message request → ∃ told : Keyed Value, Tells root request told ∧
      (∀ other, Tells root request other → other = told) ∧
      ListenerChain.apply [entry method root] .clientToServer context message =
        (some (.ofValue (.object told)), ([] : List ε)) ∧
      ∀ direction, ((listener method root : Listener ε).react direction context (.object told)).verdict =
        .replace (.object told)) ∧
    ∀ direction, direction = .serverToClient ∨ (¬ ∃ request, Asks method message request) →
      ListenerChain.apply [entry method root] direction context message =
        (some message, ([] : List ε)) := by
  refine ⟨fun _ => verdict_ne_crashed method root, fun request ⟨read, asked⟩ => ?_,
    fun direction aside => ?_⟩
  · have ordered := Value.ordered_of_read? read
    have below : (paramsOf request).Ascends := by
      unfold paramsOf
      split
      case h_1 params found => exact (ordered.of_find? found).ascends
      case h_2 => exact List.Pairwise.nil
    obtain ⟨told, added, tells⟩ := tells_of_addRoot? root ordered.ascends below
    have asks : told.find? "method" = some (.text method) := by
      rw [tells.others "method" (by decide), asked]
    exact ⟨told, tells, fun other => tells.unique, apply_of_replace read (verdict_of_asked asked added),
      fun _ => verdict_of_asked asks tells.addRoot?⟩
  · refine apply_of_forward fun value read => aside.imp_right fun unasked => verdict_of_unasked ?_
    rintro ⟨request, rfl, asked⟩
    exact unasked ⟨request, read, asked⟩

-- A request whose parameters are a list. Equality of values is not decided, so the one that is read is told
-- by its shape.
def listed : Message := ⟨"\x7b\"params\":[1],\"method\":\"m\"\x7d"⟩

def listedRequest : Keyed Value := [("method", .text "m"), ("params", .list [.number (.integer 1)])]

def listedTold : Keyed Value := [("method", .text "m"), ("params", .object [("serverRoot", .text "/r")])]

def isListed : Value → Bool
  | .object [(first, .text method), (second, .list [.number (.integer n)])] =>
    first == "method" && method == "m" && second == "params" && n == 1
  | _ => false

theorem asks_listed : Asks "m" listed listedRequest := by
  have reads : listed.value?.any isListed := by decide +kernel
  obtain ⟨value, read, shape⟩ := (Option.any_eq_true _ _).1 reads
  unfold isListed at shape
  split at shape
  · simp only [Bool.and_eq_true, beq_iff_eq] at shape
    obtain ⟨⟨⟨rfl, rfl⟩, rfl⟩, rfl⟩ := shape
    exact ⟨read, rfl⟩
  · cases shape

theorem tells_listed : Tells "/r" listedRequest listedTold := by
  refine ⟨by decide, fun key own => ?_, [("serverRoot", .text "/r")], rfl, by decide, rfl,
    fun key own => ?_⟩
  · simp only [listedTold, listedRequest, Keyed.find?, Ne.symm own, if_false]
  · exact Keyed.find?_cons_of_ne (Ne.symm own) []

def alone : ListenerChain ListenerEffect := [entry "m" "/r"]

theorem tells_root_only_listed : Asks "m" listed listedRequest ∧
    (alone.apply .clientToServer ⟨"k", []⟩ listed).1 =
      some ⟨"\x7b\"method\":\"m\",\"params\":\x7b\"serverRoot\":\"/r\"\x7d\x7d"⟩ ∧
    verdict "m" "/r" (.object listedTold) = .replace (.object listedTold) := by
  obtain ⟨-, asking, -⟩ := @tells_root_only ListenerEffect "m" "/r" ⟨"k", []⟩ listed
  obtain ⟨told, -, only, sent, again⟩ := asking listedRequest asks_listed
  obtain rfl := only listedTold tells_listed
  have printed : Message.ofValue (.object listedTold) =
      ⟨"\x7b\"method\":\"m\",\"params\":\x7b\"serverRoot\":\"/r\"\x7d\x7d"⟩ := by decide +kernel
  rw [alone, sent, printed]
  exact ⟨asks_listed, rfl, again .clientToServer⟩

end LanguageRelay.Onboarding
