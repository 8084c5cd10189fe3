import LanguageRelay.CommandLine.Run
import LanguageRelay.Proofs.Host.Arrival
import LanguageRelay.Proofs.Path.Lexical
namespace LanguageRelay

namespace Path
variable {path root front back name : String} {component : Component}

-- A name that is a component of its own: it means neither the directory itself nor the one above.
structure IsOrdinary (name : String) : Prop where
  present : name ≠ ""
  notHere : name ≠ "."
  notAbove : name ≠ ".."
  single : '/' ∉ name.toList

theorem Component.IsPart.isOrdinary (part : (Component.normal name).IsPart) : IsOrdinary name := by
  obtain ⟨kind, single⟩ := part
  have kind : component? name = some (.normal name) := kind
  rw [component?] at kind
  split at kind
  · cases kind
  · rename_i kept
    split at kind
    · cases kind
    · rename_i notAbove
      exact ⟨fun empty => kept (.inl empty), fun dot => kept (.inr dot), notAbove, single⟩

theorem isAbsolute_append_of_ne (present : front ≠ "") (back : String) :
    isAbsolute (front ++ back) = isAbsolute front := by
  have filled : front.toList ≠ [] := fun none => present (String.toList_inj.1 none)
  obtain ⟨c, rest, chars⟩ := List.exists_cons_of_ne_nil filled
  rw [isAbsolute, isAbsolute, String.toList_append, chars]
  rfl

theorem head?_segments_append (front back : String) :
    (segments (front ++ "/" ++ back)).head? = (segments front).head? := by
  have filled : segments front ≠ [] := by
    rw [segments, Text.split, ne_eq, List.map_eq_nil_iff]
    exact Text.splitOn_ne_nil _ _
  rw [segments_append, List.head?_append_of_ne_nil _ filled]

theorem head?_segments_separator (front : String) : (segments (front ++ "/")).head? = (segments front).head? := by
  have whole := head?_segments_append front ""
  rwa [String.append_empty] at whole

theorem components_below (front back : String) : components (front ++ "/" ++ back) =
    components (front ++ "/") ++ (segments back).filterMap component? := by
  have filled : front ++ "/" ≠ "" := by simp
  have parts : (segments (front ++ "/" ++ back)).filterMap component? =
      (segments (front ++ "/")).filterMap component? ++ (segments back).filterMap component? := by
    rw [segments_append, segments_append_separator, ← List.filterMap_append, List.append_assoc,
      List.filterMap_append, List.filterMap_append]
    rfl
  simp only [components, isAbsolute_append_of_ne filled, head?_segments_append,
    head?_segments_separator, parts]
  split
  · rfl
  · split <;> rfl

theorem components_separator (present : path ≠ "") : components (path ++ "/") = components path := by
  have parts : (segments (path ++ "/")).filterMap component? = (segments path).filterMap component? := by
    rw [segments_append_separator, List.filterMap_append]
    exact List.append_nil _
  simp only [components, isAbsolute_append_of_ne present, head?_segments_separator, parts]

theorem components_of_relative (relative : isAbsolute path = false)
    (notHere : (segments path).head? ≠ some ".") :
    components path = (segments path).filterMap component? := by
  simp [components, relative, notHere]

theorem components_join_relative (relative : isAbsolute path = false)
    (notHere : (segments path).head? ≠ some ".") (root : String) :
    components (join root path) = components root ++ components path := by
  by_cases none : root = ""
  · subst none
    rw [join, if_pos (.inr rfl)]
    rfl
  · rw [join, if_neg (by simp [relative, none]), components_of_relative relative notHere]
    split
    case isTrue ends =>
      obtain ⟨front, rfl⟩ := exists_separator ends
      exact components_below front path
    case isFalse => rw [components_below, components_separator none]

theorem parent_mem_iff : Component.parent ∈ (segments path).filterMap component? ↔ ".." ∈ segments path := by
  rw [List.mem_filterMap]
  constructor
  · rintro ⟨segment, member, kind⟩
    rw [component?] at kind
    split at kind
    · cases kind
    · split at kind
      · rename_i dots
        exact dots ▸ member
      · cases kind
  · exact fun member => ⟨"..", member, rfl⟩

theorem isNormal_iff : component.isNormal ↔ ∃ name, component = .normal name := by
  cases component <;> simp [Component.isNormal]

theorem all_isNormal_iff : (components path).all Component.isNormal ↔ isAbsolute path = false ∧
    (segments path).head? ≠ some "." ∧ ".." ∉ segments path := by
  rw [List.all_eq_true]
  constructor
  · intro normal
    have relative : isAbsolute path = false := by
      refine Bool.eq_false_iff.2 fun absolute => ?_
      have first : (Component.root).isNormal := normal _ (by rw [components_of_isAbsolute absolute]; simp)
      cases first
    have notHere : (segments path).head? ≠ some "." := by
      intro here
      have first : (Component.current).isNormal := normal _ (by simp [components, relative, here])
      cases first
    refine ⟨relative, notHere, fun above => ?_⟩
    rw [components_of_relative relative notHere] at normal
    cases normal _ (parent_mem_iff.2 above)
  · rintro ⟨relative, notHere, notAbove⟩ component member
    rw [components_of_relative relative notHere] at member
    rcases isPart_cases (isPart_of_mem member) with rfl | normal
    · exact absurd (parent_mem_iff.1 member) notAbove
    · exact isNormal_iff.2 normal

end Path

namespace Settings
open LanguageRelay.Path
variable {directory root result : String} {settings : Settings}

theorem isPlainBelow_iff : isPlainBelow directory ↔ directory ≠ "" ∧ isAbsolute directory = false ∧
    (segments directory).head? ≠ some "." ∧ ".." ∉ segments directory := by
  rw [isPlainBelow, Bool.and_eq_true, all_isNormal_iff, bne_iff_ne]

theorem shadowRoot?_eq_some_iff :
    shadowRoot? directory root = some result ↔ isPlainBelow directory ∧ join root directory = result := by
  rw [shadowRoot?]
  split <;> simp_all

theorem isSome_shadowRoot? (directory root : String) :
    (shadowRoot? directory root).isSome = isPlainBelow directory := by
  rw [shadowRoot?]
  split <;> simp_all

theorem components_shadowRoot? (made : shadowRoot? directory root = some result) :
    ∃ names : List String, names ≠ [] ∧ (∀ name ∈ names, IsOrdinary name) ∧
      components result = components root ++ names.map .normal := by
  obtain ⟨plain, rfl⟩ := shadowRoot?_eq_some_iff.1 made
  obtain ⟨present, relative, notHere, notAbove⟩ := isPlainBelow_iff.1 plain
  have parts := components_of_relative relative notHere
  have proper : ∀ part ∈ components directory, part.IsPart :=
    fun part member => isPart_of_mem (parts ▸ member)
  obtain ⟨names, whole⟩ := names_of_no_parent proper fun above =>
    notAbove (parent_mem_iff.1 (parts ▸ above))
  refine ⟨names, ?_, fun name member => ?_, by rw [components_join_relative relative notHere, whole]⟩
  · rintro rfl
    exact present (eq_empty_of_components whole)
  · exact (proper (.normal name) (whole ▸ List.mem_map_of_mem member)).isOrdinary

theorem isWithin_of_components {names : List String} (more : names ≠ [])
    (whole : components result = components root ++ names.map .normal) :
    isWithin root result = true ∧ same root result = false := by
  rw [isWithin, same, whole, List.isPrefixOf_iff_prefix, beq_eq_false_iff_ne, ne_eq,
    List.self_eq_append_right, List.map_eq_nil_iff]
  exact ⟨List.prefix_append _ _, more⟩

-- A mirror that is switched on has a directory of its own below every root.
def Shelters (server : ServerSettings) : Prop :=
  server.shadow.enabled = true → isPlainBelow server.shadow.directory

theorem shelters_of_validate {checked : Settings} (valid : settings.validate = .ok checked) :
    Shelters checked.server := by
  intro enabled
  unfold Settings.validate at valid
  split at valid
  · cases valid
  · split at valid
    · cases valid
    · cases valid
    · rename_i none
      cases valid
      unfold listenerFault? at none
      split at none
      · cases none
      · split at none
        · cases none
        · rename_i fine
          simp only [not_and, Bool.not_eq_true', Bool.not_eq_false] at fine
          exact fine enabled

theorem shelters_of_ofText {host : Host} {text path : String}
    (accepted : ofText host text path = .ok settings) : Shelters settings.server := by
  unfold ofText at accepted
  split at accepted
  · cases accepted
  · split at accepted
    · cases accepted
    · rename_i valid
      cases accepted
      exact shelters_of_validate valid

theorem shelters_of_ofFile {host : Host} {path : String} (loaded : ofFile host path = .ok settings) :
    Shelters settings.server := by
  unfold ofFile at loaded
  split at loaded
  · cases loaded
  · exact shelters_of_ofText loaded

theorem shelters_of_load {host : Host} {given : Option String} (loaded : load host given = .ok settings) :
    Shelters settings.server := by
  unfold load at loaded
  split at loaded
  · exact shelters_of_ofFile loaded
  · split at loaded
    · exact shelters_of_ofFile loaded
    · cases loaded
      exact fun _ => by decide

theorem shelters_of_settingsFor {host : Host} {arguments : CommandLine.Arguments}
    (started : CommandLine.settingsFor host arguments = .ok settings) : Shelters settings.server := by
  unfold CommandLine.settingsFor at started
  split at started
  · cases started
  · rename_i loaded
    have shelters := shelters_of_load loaded
    split at started
    · cases started
      exact shelters
    · split at started
      · cases started
        exact shelters
      · cases started

-- A directory is accepted when it is relative, does not begin with `.` and has no `..` in it, and this
-- does not depend on the root. Then the components of the root are followed by ordinary names, at least one,
-- so the directory is within the root by name and is not the root. Whatever settings the program starts
-- with, their directory is accepted below every root.
theorem shadow_directory_stays_below (directory root : String) :
    ((shadowRoot? directory root).isSome ↔ directory ≠ "" ∧ isAbsolute directory = false ∧
      (segments directory).head? ≠ some "." ∧ ".." ∉ segments directory) ∧
    (shadowRoot? directory root).isSome = (shadowRoot? directory "").isSome ∧
    (∀ result, shadowRoot? directory root = some result →
      (∃ names : List String, names ≠ [] ∧ (∀ name ∈ names, IsOrdinary name) ∧
        components result = components root ++ names.map .normal) ∧
      isWithin root result = true ∧ same root result = false) ∧
    ∀ host arguments settings, CommandLine.settingsFor host arguments = .ok settings →
      settings.server.shadow.enabled = true →
      (shadowRoot? settings.server.shadow.directory root).isSome := by
  refine ⟨?_, ?_, fun result made => ?_, fun host arguments settings started enabled => ?_⟩
  · rw [isSome_shadowRoot?, isPlainBelow_iff]
  · rw [isSome_shadowRoot?, isSome_shadowRoot?]
  · obtain ⟨names, more, ordinary, whole⟩ := components_shadowRoot? made
    exact ⟨⟨names, more, ordinary, whole⟩, isWithin_of_components more whole⟩
  · rw [isSome_shadowRoot?]
    exact shelters_of_settingsFor started enabled

-- A directory with parts that say nothing, in the only file of a host.
def roundaboutText : String := "[lsp.shadow]\ndir = \"..a/./b//\"\n"

def roundaboutHost : Host := ⟨⟨[(["c"], .file (Text.utf8 roundaboutText) false)], []⟩, []⟩

def shadows (directory : String) : Except LoadError Settings → Bool
  | .ok settings => settings.server.shadow.enabled && settings.server.shadow.directory == directory
  | .error _ => false

theorem readText_roundabout : roundaboutHost.files.readText "/c" = .ok roundaboutText := by
  have leads : roundaboutHost.files.resolve true "/c" =
      .ok (.present ["c"] (.file (Text.utf8 roundaboutText) false)) := by
    rw [Host.FileSystem.resolve, if_neg (by decide), if_neg (by decide)]
    exact Host.FileSystem.Arrives.walk <| .stay rfl rfl <| .down rfl ⟨by decide, by decide⟩ rfl nofun <|
      .done rfl
  have decoded : Text.utf8Decode? (Text.utf8 roundaboutText) = some roundaboutText := by decide +kernel
  rw [Host.FileSystem.readText, Host.FileSystem.read, Host.FileSystem.entry?, leads]
  simp only [decoded]

theorem shadow_directory_stays_below_roundabout : ∃ settings,
    CommandLine.settingsFor roundaboutHost ⟨some "/c", none, none⟩ = .ok settings ∧
    settings.server.shadow.enabled = true ∧ settings.server.shadow.directory = "..a/./b//" ∧
    shadowRoot? settings.server.shadow.directory "./srv/" = some "./srv/..a/./b//" ∧
    isWithin "./srv/" "./srv/..a/./b//" = true ∧ same "./srv/" "./srv/..a/./b//" = false := by
  have shadows : shadows "..a/./b//" (ofText roundaboutHost roundaboutText "/c") := by decide +kernel
  unfold Settings.shadows at shadows
  split at shadows
  case h_1 settings accepted =>
    obtain ⟨enabled, own⟩ := (Bool.and_eq_true_iff).1 shadows
    have own := beq_iff_eq.1 own
    have started : CommandLine.settingsFor roundaboutHost ⟨some "/c", none, none⟩ = .ok settings := by
      rw [CommandLine.settingsFor, load, ofFile, readText_roundabout]
      simp only [accepted]
      rfl
    obtain ⟨-, -, below, starts⟩ := shadow_directory_stays_below settings.server.shadow.directory "./srv/"
    obtain ⟨result, made⟩ := Option.isSome_iff_exists.1 (starts _ _ settings started enabled)
    have within := (below result made).2
    rw [own] at made
    cases made
    exact ⟨settings, started, enabled, own, by rw [own]; decide, within⟩
  case h_2 => cases shadows

end Settings
end LanguageRelay
