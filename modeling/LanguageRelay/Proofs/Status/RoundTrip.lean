import LanguageRelay.Proofs.Datum.Readers
import LanguageRelay.Proofs.Json.ReadBack
import LanguageRelay.Proofs.Keyed
import LanguageRelay.Status.Report
namespace LanguageRelay
open Json Text

-- The reports there are: numbers are unsigned of 64 and of 32 bits, and the sessions are a map.
structure ServerStatus.Fits (s : ServerStatus) : Prop where
  subscriberCount : s.subscriberCount ≤ greatest64
  version : s.version ≤ greatest32

structure StatusReport.Fits (r : StatusReport) : Prop where
  version : r.version ≤ greatest32
  sessions : ∀ e ∈ r.sessions, e.2.Fits
  keys : r.sessions.Ascends

instance (s : ServerStatus) : Decidable s.Fits :=
  decidable_of_iff (s.subscriberCount ≤ greatest64 ∧ s.version ≤ greatest32)
    ⟨fun fits => ⟨fits.1, fits.2⟩, fun fits => ⟨fits.subscriberCount, fits.version⟩⟩

instance (r : StatusReport) : Decidable r.Fits :=
  decidable_of_iff (r.version ≤ greatest32 ∧ (∀ e ∈ r.sessions, e.2.Fits) ∧ r.sessions.Ascends)
    ⟨fun fits => ⟨fits.1, fits.2.1, fits.2.2⟩, fun fits => ⟨fits.version, fits.sessions, fits.keys⟩⟩

theorem isIntegral_natural {n : Nat} (fits : n ≤ greatest64) : (Value.natural n).isIntegral := by
  have fits : n ≤ 0xFFFFFFFFFFFFFFFF := fits
  simp only [Value.natural, Value.isIntegral, decide_eq_true_eq]
  omega

theorem isIntegral_texts (items : List String) : (Value.texts items).isIntegral := by
  rw [Value.texts, Value.isIntegral, areIntegral_iff]
  intro v member
  obtain ⟨s, -, rfl⟩ := List.mem_map.1 member
  rfl

theorem natural?_natural {n bound : Nat} (fits : n ≤ bound) :
    Datum.natural? bound (Datum.ofValue (.natural n)) = some n := by
  simp [Value.natural, Datum.ofValue, Datum.ofNumber, Datum.natural?, fits]

theorem texts?_texts (items : List String) :
    Datum.list? Datum.text? (Datum.ofValue (.texts items)) = some items := by
  have data : Datum.ofValue (.texts items) = .list (items.map .text) := by
    rw [Value.texts, Datum.ofValue, Datum.ofValues_eq, List.map_map]
    rfl
  rw [data]
  exact Datum.list?_map .text fun _ _ => rfl

namespace SessionState

theorem read?_name (s : SessionState) : read? (Datum.ofValue (.text s.name)) = some s := s.lookup_name

end SessionState

namespace ServerStatus

variable {s : ServerStatus}

theorem isIntegral_toValue (fits : s.Fits) : s.toValue.isIntegral := by
  have count := isIntegral_natural fits.subscriberCount
  have version : (Value.natural s.version).isIntegral :=
    isIntegral_natural (Nat.le_trans fits.version (by decide))
  have languages := isIntegral_texts s.languages
  have mimeTypes := isIntegral_texts s.mimeTypes
  rw [toValue, Value.isIntegral, membersAreIntegral_iff]
  cases s.displayName <;> by_cases none : s.mimeTypes = [] <;>
    simp [none, count, version, languages, mimeTypes, Value.isIntegral]

def data (s : ServerStatus) : Datum.Fields :=
  [("state", Datum.ofValue (.text s.state.name)), ("languages", Datum.ofValue (.texts s.languages)),
    ("subscriber_count", Datum.ofValue (.natural s.subscriberCount)),
    ("version", Datum.ofValue (.natural s.version))]
  ++ (match s.displayName with
    | some name => [("display_name", Datum.ofValue (.text name))]
    | none => [])
  ++ if s.mimeTypes = [] then [] else [("mime_types", Datum.ofValue (.texts s.mimeTypes))]

theorem ofValue_toValue (s : ServerStatus) : Datum.ofValue s.toValue = .table s.data := by
  rw [toValue, Datum.ofValue, Datum.ofMembers_eq, data]
  cases s.displayName <;> by_cases untyped : s.mimeTypes = [] <;> simp [untyped]

theorem known_data (s : ServerStatus) : ∀ p ∈ s.data, p.1 ∈ fieldNames := by
  rw [data]
  cases s.displayName <;> by_cases untyped : s.mimeTypes = [] <;> simp [untyped, fieldNames]

theorem apart_data (s : ServerStatus) : s.data.Distinct := by
  rw [data]
  cases s.displayName <;> by_cases untyped : s.mimeTypes = [] <;> simp [untyped, Datum.Fields.Distinct]

theorem read?_displayName (s : ServerStatus) :
    Datum.Fields.orElse s.data.reverse "display_name" none (Datum.optional? Datum.text?) =
      some s.displayName := by
  cases shown : s.displayName with
  | none =>
    refine Datum.orElse_of_missing ?_
    rw [data, shown]
    by_cases untyped : s.mimeTypes = [] <;> simp [untyped]
  | some name =>
    have written : ("display_name", Datum.ofValue (.text name)) ∈ s.data := by simp [data, shown]
    rw [Datum.orElse_of_mem s.apart_data written]
    rfl

theorem read?_mimeTypes (s : ServerStatus) :
    Datum.Fields.orElse s.data.reverse "mime_types" [] (Datum.list? Datum.text?) = some s.mimeTypes := by
  by_cases untyped : s.mimeTypes = []
  · rw [untyped]
    refine Datum.orElse_of_missing ?_
    rw [data, untyped]
    cases s.displayName <;> simp
  · have written : ("mime_types", Datum.ofValue (.texts s.mimeTypes)) ∈ s.data := by simp [data, untyped]
    rw [Datum.orElse_of_mem s.apart_data written, texts?_texts]

theorem read?_toValue (fits : s.Fits) : read? (Datum.ofValue s.toValue) = some s := by
  have state : Datum.Fields.need s.data.reverse "state" SessionState.read? = some s.state :=
    (Datum.need_of_mem s.apart_data (by simp [data])).trans s.state.read?_name
  have languages : Datum.Fields.need s.data.reverse "languages" (Datum.list? Datum.text?) =
      some s.languages :=
    (Datum.need_of_mem s.apart_data (by simp [data])).trans (texts?_texts s.languages)
  have count : Datum.Fields.need s.data.reverse "subscriber_count" (Datum.natural? greatest64) =
      some s.subscriberCount :=
    (Datum.need_of_mem s.apart_data (by simp [data])).trans (natural?_natural fits.subscriberCount)
  have version : Datum.Fields.need s.data.reverse "version" (Datum.natural? greatest32) =
      some s.version :=
    (Datum.need_of_mem s.apart_data (by simp [data])).trans (natural?_natural fits.version)
  simp only [read?, ofValue_toValue, Datum.record?_table s.known_data s.apart_data, state, languages, count,
    version, s.read?_displayName, s.read?_mimeTypes, Option.bind_eq_bind, Option.bind_some]
  rfl

end ServerStatus

namespace StatusReport

variable {r : StatusReport}

theorem isIntegral_toValue (fits : r.Fits) : r.toValue.isIntegral := by
  have version : (Value.natural r.version).isIntegral :=
    isIntegral_natural (Nat.le_trans fits.version (by decide))
  have sessions : membersAreIntegral (r.sessions.mapValues ServerStatus.toValue) := by
    rw [membersAreIntegral_iff]
    intro e member
    obtain ⟨session, listed, rfl⟩ := List.mem_map.1 member
    exact ServerStatus.isIntegral_toValue (fits.sessions session listed)
  simp [toValue, Value.isIntegral, membersAreIntegral, version, sessions]

theorem read?_toValue (fits : r.Fits) : read? (Datum.ofValue r.toValue) = some r := by
  have sessions : Datum.table? ServerStatus.read?
      (Datum.ofValue (.object (r.sessions.mapValues ServerStatus.toValue))) = some r.sessions := by
    rw [Datum.ofValue, Datum.ofMembers_eq, Keyed.mapValues, List.map_map]
    exact Datum.table?_map (fun s => Datum.ofValue s.toValue) fun e member =>
      ServerStatus.read?_toValue (fits.sessions e member)
  have distinct : Datum.Fields.Distinct [("version", Datum.ofValue (.natural r.version)),
      ("sessions", Datum.ofValue (.object (r.sessions.mapValues ServerStatus.toValue)))] := by
    simp [Datum.Fields.Distinct]
  have first := (Datum.need_of_mem distinct List.mem_cons_self).trans (natural?_natural fits.version)
  have second := (Datum.need_of_mem distinct (List.mem_cons_of_mem _ List.mem_cons_self)).trans sessions
  rw [toValue, Datum.ofValue, Datum.ofMembers_eq, read?, List.map_cons, List.map_cons, List.map_nil,
    Datum.record?_table (by simp) distinct]
  simp only [first, second, Option.bind_eq_bind, Option.bind_some, fits.keys.ofList]
  rfl

theorem readJson?_render (fits : r.Fits) : Datum.readJson? read? r.render = some r := by
  rw [render, Json.readJson?_render read? (isIntegral_toValue fits), read?_toValue fits]

-- A report is read back from its text, so no other report has that text.
theorem text_loses_nothing (fits : r.Fits) :
    Datum.readJson? read? r.render = some r ∧
      ∀ other : StatusReport, other.Fits → other.render = r.render → other = r := by
  refine ⟨readJson?_render fits, fun other fitting same => ?_⟩
  have back := readJson?_render fitting
  rw [same, readJson?_render fits] at back
  exact (Option.some.inj back).symm

-- Keys and texts with everything that is escaped, the greatest numbers, a display name that is empty and
-- a status without one.
def motley : StatusReport := ⟨4294967295, [
  ("", ⟨.stopped, [], 0, 0, none, []⟩),
  ("\x00\x1f\"\\/\n\r\t\x08\x0c\x7f",
    ⟨.crashed, ["", "C\r\n"], 18446744073709551615, 4294967295, some "", ["text/x"]⟩),
  ("clangd", ⟨.running, ["c", "cpp"], 2, 2, some "C \"family\"", []⟩),
  ("\u2028é😀", ⟨.starting, ["Δ"], 1, 7, none, ["", "\x01"]⟩)]⟩

theorem text_of_motley_loses_nothing : motley.Fits ∧
    Datum.readJson? read? motley.render = some motley ∧
      ∀ other : StatusReport, other.Fits → other.render = motley.render → other = motley := by
  have fits : motley.Fits := by decide
  exact ⟨fits, text_loses_nothing fits⟩

end StatusReport
end LanguageRelay
